import EventIntake.Proofs.Subscription.Housing

/-! What a manager stores, table by table. Only one subscription at a time brings records for a table, and what
it leaves buffered is stored before another takes its place, so the records of a table stay in order. -/
namespace EventIntake
open Event

/-- The records of a table among those of several subscriptions. -/
def tableRecords (c : Category) (records : List (SubscriptionId × Record)) : List Record :=
  recordsIn c (records.map Prod.snd)

theorem tableRecords_append (c : Category) (records later : List (SubscriptionId × Record)) :
    tableRecords c (records ++ later) = tableRecords c records ++ tableRecords c later := by
  simp [tableRecords, recordsIn_append]

theorem map_snd_labelled (batches : List Batch) :
    (Queue.labelled batches).map Prod.snd = batches.flatMap Batch.records := by
  simp [Queue.labelled, List.map_flatMap, Function.comp_def]

namespace Subscription.Manager
variable {σ τ : Type}

/-- Every record is of the category that its subscription is routed to. -/
def Placed (m : Manager σ τ) (records : List (SubscriptionId × Record)) : Prop :=
  ∀ id r, (id, r) ∈ records → ∃ c, m.Routes c id ∧ Record.InTable c r

theorem Routes.unique {m : Manager σ τ} {c d : Category} {id : SubscriptionId} (hc : m.Routes c id)
    (hd : m.Routes d id) : c = d :=
  Option.some.inj (hc.symm.trans hd)

theorem Agrees.routes_unique {m : Manager σ τ} (ha : m.Agrees) {c : Category} {i j : SubscriptionId}
    (hi : m.Routes c i) (hj : m.Routes c j) : i = j := by
  obtain ⟨a, hla, hca⟩ := Option.map_eq_some_iff.mp hi
  obtain ⟨b, hlb, hcb⟩ := Option.map_eq_some_iff.mp hj
  exact ha.id_eq (hcb ▸ ha.held _ (Registry.mem_of_lookup hlb)) (Registry.mem_of_lookup hla) hca

/-- The records of a table are those of the subscription that is routed to it. -/
theorem Placed.tableRecords_eq {m : Manager σ τ} {records : List (SubscriptionId × Record)}
    (h : m.Placed records) (ha : m.Agrees) {c : Category} {id : SubscriptionId} (hc : m.Routes c id) :
    tableRecords c records = Queue.recordsFor id records := by
  rw [tableRecords, recordsIn, List.filter_map, Queue.recordsFor]
  refine congrArg (List.map Prod.snd) (List.filter_congr fun x hx => ?_)
  obtain ⟨d, hd, htable⟩ := h x.1 x.2 hx
  simp only [Function.comp_apply, decide_eq_decide]
  constructor
  · intro hx
    exact ha.routes_unique (htable.unique hx ▸ hd) hc
  · intro hid
    exact hd.unique (hid ▸ hc) ▸ htable

theorem Placed.tableRecords_eq_nil {m : Manager σ τ} {records : List (SubscriptionId × Record)}
    (h : m.Placed records) {c : Category} (hc : ∀ id, ¬ m.Routes c id) : tableRecords c records = [] := by
  refine List.filter_eq_nil_iff.mpr fun r hr hin => ?_
  obtain ⟨⟨id, _⟩, hx, rfl⟩ := List.mem_map.mp hr
  obtain ⟨d, hd, htable⟩ := h id _ hx
  exact hc id (htable.unique (of_decide_eq_true hin) ▸ hd)

/-- Lists with the same records for each subscription have the same for each table. -/
theorem Placed.tableRecords_congr {m : Manager σ τ} {records others : List (SubscriptionId × Record)}
    (h : m.Placed records) (ho : m.Placed others) (ha : m.Agrees)
    (he : ∀ id, Queue.recordsFor id records = Queue.recordsFor id others) (c : Category) :
    tableRecords c records = tableRecords c others := by
  by_cases hc : ∃ id, m.Routes c id
  · obtain ⟨id, hc⟩ := hc
    rw [h.tableRecords_eq ha hc, ho.tableRecords_eq ha hc, he]
  · have hc := not_exists.mp hc
    rw [h.tableRecords_eq_nil hc, ho.tableRecords_eq_nil hc]

theorem Placed.append {m : Manager σ τ} {records others : List (SubscriptionId × Record)}
    (h : m.Placed records) (ho : m.Placed others) : m.Placed (records ++ others) :=
  fun id r hr => (List.mem_append.mp hr).elim (h id r) (ho id r)

theorem placed_buffered {m : Manager σ τ} {q : Queue} (hs : q.Sound)
    (h : ∀ id, ∀ r ∈ q.pending id, ∃ c, m.Routes c id ∧ Record.InTable c r) : m.Placed q.buffered := by
  intro id r hr
  refine h id r ?_
  rw [← Queue.recordsFor_buffered hs]
  exact List.mem_map.mpr ⟨(id, r), List.mem_filter.mpr ⟨hr, by simp⟩, rfl⟩

/-- The records that moves put into the queue, in order. -/
def filesAll [BatchStore σ] [Node τ] : List Move → Manager σ τ → List (SubscriptionId × Record)
  | [], _ => []
  | move :: rest, m => move.files m ++ filesAll rest (move.run m)

variable [BatchStore σ] [Node τ]

/-- What a move hands over and keeps for a table is in order what was buffered for it and what came in. -/
theorem tables_move {m : Manager σ τ} (h : m.Filed) (ha : m.Agrees) (move : Move) :
    ∃ batches, (move.run m).intake.store = BatchStore.persistAll batches m.intake.store ∧
      (∀ r ∈ batches.flatMap Batch.records, ∃ c, Record.InTable c r) ∧
      ∀ c, recordsIn c (batches.flatMap Batch.records) ++ tableRecords c (move.run m).intake.queue.buffered =
        tableRecords c m.intake.queue.buffered ++ tableRecords c (move.files m) := by
  obtain ⟨calls, hcalled, hgiven⟩ := called_move h.matched move
  obtain ⟨hpending, hhanded⟩ := h.called hcalled hgiven fun _ _ => routes_of_files
  have hbatches : m.Placed (Queue.labelled (Queue.handedAll calls m.intake.queue)) := by
    intro id r hr
    obtain ⟨b, hb, hr⟩ := List.mem_flatMap.mp hr
    obtain ⟨_, hr, he⟩ := List.mem_map.mp hr
    cases he
    exact hhanded b hb r hr
  have hafter := placed_buffered (m := m) (hcalled.sound h.sound) hpending
  have hbefore := placed_buffered h.sound h.buffered
  have hfiles : m.Placed (move.files m) := fun _ _ => routes_of_files
  refine ⟨_, hcalled.store, fun r hr => ?_, fun c => ?_⟩
  · obtain ⟨b, hb, hr⟩ := List.mem_flatMap.mp hr
    obtain ⟨c, _, htable⟩ := hhanded b hb r hr
    exact ⟨c, htable⟩
  · rw [← map_snd_labelled, ← tableRecords, ← tableRecords_append, ← tableRecords_append]
    refine (hbatches.append hafter).tableRecords_congr (hbefore.append hfiles) ha (fun id => ?_) c
    rw [Queue.recordsFor_append, Queue.recordsFor_append, Queue.recordsFor_labelled,
      Queue.recordsFor_buffered (hcalled.sound h.sound), Queue.recordsFor_buffered h.sound,
      hcalled.conserves h.sound, hgiven]

theorem tables_after {m : Manager σ τ} (h : m.Filed) (ha : m.Agrees) (moves : List Move) :
    ∃ batches, (m.after moves).intake.store = BatchStore.persistAll batches m.intake.store ∧
      (∀ r ∈ batches.flatMap Batch.records, ∃ c, Record.InTable c r) ∧
      ∀ c, recordsIn c (batches.flatMap Batch.records) ++ tableRecords c (m.after moves).intake.queue.buffered =
        tableRecords c m.intake.queue.buffered ++ tableRecords c (filesAll moves m) := by
  induction moves generalizing m with
  | nil => exact ⟨[], rfl, by simp, fun c => by simp [after, filesAll, recordsIn, tableRecords]⟩
  | cons move rest ih =>
    obtain ⟨first, hfirst, hin, htables⟩ := tables_move h ha move
    obtain ⟨later, hlater, hin', htables'⟩ := ih (h.move ha move) (ha.move move)
    refine ⟨first ++ later, ?_, fun r hr => ?_, fun c => ?_⟩
    · rw [after_cons, hlater, hfirst, Queue.persistAll_append]
    · rw [List.flatMap_append] at hr
      exact (List.mem_append.mp hr).elim (hin r) (hin' r)
    · rw [List.flatMap_append, recordsIn_append, List.append_assoc, after_cons, htables', filesAll,
        tableRecords_append, ← List.append_assoc, ← List.append_assoc, htables]

end Subscription.Manager

end EventIntake
