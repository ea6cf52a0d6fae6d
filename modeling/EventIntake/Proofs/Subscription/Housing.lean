import EventIntake.Proofs.Record
import EventIntake.Proofs.Store.Noting
import EventIntake.Proofs.Subscription.Routing

/-! Buffered records stay with the category of their subscription. A route goes only together with its
buffer, so an id that is handed out again finds nothing buffered. -/
namespace EventIntake

/-- Some records, all of the same table. -/
def OneTable (records : List Record) : Prop := records ≠ [] ∧ ∃ c, ∀ r ∈ records, Record.InTable c r

theorem Intake.pending_release {σ : Type} [BatchStore σ] {w : Intake σ} (hs : w.queue.Sound)
    (id : Event.SubscriptionId) : (w.release id).2.queue.pending id = [] := by
  have hq : (w.release id).2.queue = (w.queue.remove id).2 := Queue.Call.run_queue (.release id) _ _
  simp [hq, Queue.remove, Queue.pending, hs.ascending.find?_erase]

theorem Intake.pending_drain {σ : Type} [BatchStore σ] (w : Intake σ) (id : Event.SubscriptionId) :
    w.drain.2.queue.pending id = [] :=
  rfl

namespace Subscription
open Event

/-- The records that a move puts into the queue. -/
def Move.files {σ τ : Type} (move : Move) (m : Manager σ τ) : List (SubscriptionId × Record) :=
  match move with
  | .push id raw =>
    if m.intake.queue.closed then [] else Intake.due m.registry (invocations m.registry id raw)
  | _ => []

namespace Manager

variable {σ τ : Type}

/-- Every buffered record is of the category that its subscription is routed to. -/
structure Filed (m : Manager σ τ) : Prop where
  sound : m.intake.queue.Sound
  matched : Intake.Matched m.registry
  buffered : ∀ id, ∀ r ∈ m.intake.queue.pending id, ∃ c, m.Routes c id ∧ Record.InTable c r

/-- Every buffered record is of the category that its subscription is routed to, and every batch that the
store was given is of one table. -/
structure Housed (m : Manager (NotingStore σ) τ) : Prop where
  sound : m.intake.queue.Sound
  matched : Intake.Matched m.registry
  buffered : ∀ id, ∀ r ∈ m.intake.queue.pending id, ∃ c, m.Routes c id ∧ Record.InTable c r
  noted : ∀ records ∈ m.intake.store.noted, OneTable records

theorem Housed.filed {m : Manager (NotingStore σ) τ} (h : m.Housed) : m.Filed :=
  ⟨h.sound, h.matched, h.buffered⟩

theorem Filed.pending_eq_nil {m : Manager σ τ} (h : m.Filed) {id : SubscriptionId}
    (hl : m.registry.lookup id = none) : m.intake.queue.pending id = [] := by
  refine List.eq_nil_iff_forall_not_mem.mpr fun r hr => ?_
  obtain ⟨c, hc, _⟩ := h.buffered id r hr
  simp [Routes, hl] at hc

theorem Housed.pending_eq_nil {m : Manager (NotingStore σ) τ} (h : m.Housed) {id : SubscriptionId}
    (hl : m.registry.lookup id = none) : m.intake.queue.pending id = [] :=
  h.filed.pending_eq_nil hl

/-- A push adds records of the category of its subscription only. -/
theorem routes_of_due (registry : Registry PersistingHandler)
    (calls : List (Invocation PersistingHandler)) {id : SubscriptionId} {r : Record}
    (hr : (id, r) ∈ Intake.due registry calls) :
    ∃ c, (registry.lookup id).map Route.category = some c ∧ Record.InTable c r := by
  obtain ⟨call, hcall, he⟩ := List.mem_map.mp hr
  cases he
  exact ⟨call.event.category, by simpa using (List.mem_filter.mp hcall).2, Record.inTable_ofEvent _ _⟩

theorem routes_of_files {m : Manager σ τ} {move : Move} {id : SubscriptionId} {r : Record}
    (hr : (id, r) ∈ move.files m) : ∃ c, m.Routes c id ∧ Record.InTable c r := by
  cases move with
  | push j raw =>
    simp only [Move.files] at hr
    split at hr
    · cases hr
    · exact routes_of_due m.registry _ hr
  | subscribe | unsubscribe | refuse | close => cases hr

variable {m : Manager σ τ} [BatchStore σ]

/-- What a move does to the intake, as calls on its queue. -/
theorem called_move [Node τ] (hm : Intake.Matched m.registry) (move : Move) :
    ∃ calls, m.intake.Called calls (move.run m).intake ∧
      ∀ id, (Queue.runAll calls m.intake.queue m.intake.store).1.filterMap (Queue.accepted? id) =
        Queue.recordsFor id (move.files m) := by
  cases move with
  | subscribe c =>
    have ho := subscribed c m
    rw [Move.run]
    generalize (m.subscribe c).1 = result, (m.subscribe c).2 = m' at ho ⊢
    cases ho <;> exact ⟨[], .refl _, fun _ => rfl⟩
  | unsubscribe c =>
    have ho := unsubscribed c m
    rw [Move.run]
    generalize (m.unsubscribe c).1 = result, (m.unsubscribe c).2 = m' at ho ⊢
    cases ho with
    | idle | failed | rejected | unrouted => exact ⟨[], .refl _, fun _ => rfl⟩
    | @released id _ _ _ _ _ _ hrel =>
      cases (congrArg Prod.snd hrel : (m.intake.release id).2 = _)
      exact ⟨[.release id], m.intake.called_release id, fun _ => rfl⟩
  | push id raw =>
    refine ⟨_, Intake.called_dispatch hm id raw m.intake, fun id' => ?_⟩
    rw [Queue.accepted_enqueues, Move.files]
    split <;> rfl
  | refuse => exact ⟨[], .refl _, fun _ => rfl⟩
  | close => exact ⟨[.drain], m.intake.called_drain, fun _ => rfl⟩

/-- What is handed over or kept is of the category of its subscription, if what is added is. -/
theorem Filed.called (h : m.Filed) {calls : List Queue.Call} {w : Intake σ} (hw : m.intake.Called calls w)
    {given : List (SubscriptionId × Record)}
    (hg : ∀ id, (Queue.runAll calls m.intake.queue m.intake.store).1.filterMap (Queue.accepted? id) =
      Queue.recordsFor id given)
    (hroutes : ∀ id r, (id, r) ∈ given → ∃ c, m.Routes c id ∧ Record.InTable c r) :
    (∀ id, ∀ r ∈ w.queue.pending id, ∃ c, m.Routes c id ∧ Record.InTable c r) ∧
      ∀ b ∈ Queue.handedAll calls m.intake.queue, ∀ r ∈ b.records,
        ∃ c, m.Routes c b.subscription ∧ Record.InTable c r := by
  refine hw.forall_of_accepted h.sound h.buffered fun id r hr => ?_
  rw [hg] at hr
  obtain ⟨⟨j, _⟩, hmem, rfl⟩ := List.mem_map.mp hr
  obtain ⟨hmem, hid⟩ := List.mem_filter.mp hmem
  cases (of_decide_eq_true hid : j = id)
  exact hroutes _ _ hmem

theorem Filed.subscribe [Node τ] (h : m.Filed) (c : Category) : (m.subscribe c).2.Filed := by
  have hk := carried_subscribe h.sound c
  have ho := subscribed c m
  generalize (m.subscribe c).1 = result, (m.subscribe c).2 = m' at hk ho ⊢
  have hmatched := hk.matched h.matched
  cases ho with
  | refused | kept | failed | unrouted => exact ⟨h.sound, hmatched, h.buffered⟩
  | @opened id _ registry _ _ _ hreg =>
    refine ⟨h.sound, hmatched, fun id' r hr => ?_⟩
    have hne : id' ≠ id := by
      rintro rfl
      obtain ⟨_, hnone, _⟩ := Registry.register_eq_ok hreg
      have hl : m.registry.lookup id' = none := by simp [Registry.lookup, hnone]
      exact List.not_mem_nil (h.pending_eq_nil hl ▸ hr)
    obtain ⟨d, hd, htable⟩ := h.buffered id' r hr
    refine ⟨d, ?_, htable⟩
    simpa [Routes, Registry.lookup_register hreg, hne] using hd

theorem Filed.unsubscribe [Node τ] (h : m.Filed) (ha : m.Agrees) (c : Category) :
    (m.unsubscribe c).2.Filed := by
  have hk := carried_unsubscribe h.sound c
  have ho := unsubscribed c m
  generalize (m.unsubscribe c).1 = result, (m.unsubscribe c).2 = m' at hk ho ⊢
  have hmatched := hk.matched h.matched
  cases ho with
  | idle | failed | rejected | unrouted => exact ⟨h.sound, hmatched, h.buffered⟩
  | @released id _ _ _ _ _ _ hrel =>
    cases (congrArg Prod.snd hrel : (m.intake.release id).2 = _)
    have hcalled := m.intake.called_release id
    obtain ⟨hpending, _⟩ := h.called hcalled (fun _ => (Queue.recordsFor_nil _).symm) (by simp)
    refine ⟨hk.took.sound, hmatched, fun id' r hr => ?_⟩
    have hne : id' ≠ id := by
      rintro rfl
      exact List.not_mem_nil (Intake.pending_release h.sound id' ▸ hr)
    obtain ⟨d, hd, htable⟩ := hpending id' r hr
    refine ⟨d, ?_, htable⟩
    simpa [Routes, Registry.lookup, ha.routes.find?_erase, hne] using hd

theorem Filed.move [Node τ] (h : m.Filed) (ha : m.Agrees) (move : Move) : (move.run m).Filed := by
  obtain ⟨calls, hcalled, hgiven⟩ := called_move h.matched move
  have hsound := hcalled.sound h.sound
  obtain ⟨hpending, _⟩ := h.called hcalled hgiven fun _ _ => routes_of_files
  cases move with
  | subscribe c => exact h.subscribe c
  | unsubscribe c => exact h.unsubscribe ha c
  | push | refuse => exact ⟨hsound, h.matched, hpending⟩
  | close =>
    refine ⟨hsound, h.matched, fun id r hr => ?_⟩
    exact absurd (m.intake.pending_drain id ▸ hr) List.not_mem_nil

theorem Housed.move {m : Manager (NotingStore σ) τ} [Node τ] (h : m.Housed) (ha : m.Agrees) (move : Move) :
    (move.run m).Housed := by
  obtain ⟨hsound, hmatched, hbuffered⟩ := h.filed.move ha move
  refine ⟨hsound, hmatched, hbuffered, fun records hr => ?_⟩
  obtain ⟨calls, hcalled, hgiven⟩ := called_move h.matched move
  obtain ⟨_, hhanded⟩ := h.filed.called hcalled hgiven fun _ _ => routes_of_files
  rw [hcalled.store, NotingStore.noted_persistAll] at hr
  rcases List.mem_append.mp hr with hr | hr
  · exact h.noted records hr
  · obtain ⟨b, hb, rfl⟩ := List.mem_map.mp hr
    have hne := Queue.handedAll_ne_nil calls h.sound b hb
    obtain ⟨first, hfirst⟩ := List.exists_mem_of_ne_nil _ hne
    obtain ⟨c, hc, _⟩ := hhanded b hb first hfirst
    refine ⟨hne, c, fun r hr => ?_⟩
    -- The subscription of the batch has one route.
    obtain ⟨d, hd, htable⟩ := hhanded b hb r hr
    exact Option.some.inj (hd.symm.trans hc) ▸ htable

theorem Housed.after {m : Manager (NotingStore σ) τ} [Node τ] (h : m.Housed) (ha : m.Agrees)
    (moves : List Move) : (m.after moves).Housed := by
  induction moves generalizing m with
  | nil => exact h
  | cons move rest ih => exact ih (h.move ha move) (ha.move move)

end Manager

end Subscription

end EventIntake
