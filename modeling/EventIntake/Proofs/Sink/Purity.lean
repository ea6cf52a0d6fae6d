import EventIntake.Proofs.Sink.Agreement
import EventIntake.Proofs.Subscription.Housing

/-! Every batch of a sink is of one table, that of the category its subscription had when the records came
in, also when the id is handed out again for another category. -/
namespace EventIntake.EventSink
open Event Queue Subscription

/-! ### Records with their categories -/

/-- The records of one subscription in order, each with its category. -/
def under (id : SubscriptionId) (filed : List (SubscriptionId × Category × Record)) :
    List (Category × Record) :=
  (filed.filter fun f => f.1 = id).map Prod.snd

/-- The records of batches in order, each with the subscription and the category of its batch. -/
def filedBatches (batches : List (Category × Batch)) : List (SubscriptionId × Category × Record) :=
  batches.flatMap fun b => b.2.records.map fun r => (b.2.subscription, b.1, r)

theorem map_under (id : SubscriptionId) (filed : List (SubscriptionId × Category × Record)) :
    (under id filed).map Prod.snd = recordsFor id (filed.map fun f => (f.1, f.2.2)) := by
  simp [under, recordsFor, List.filter_map, Function.comp_def]

theorem map_filedBatches (batches : List (Category × Batch)) :
    (filedBatches batches).map (fun f => (f.1, f.2.2)) = labelled (batches.map Prod.snd) := by
  simp [filedBatches, labelled, List.map_flatMap, List.flatMap_map, Function.comp_def]

/-- A record tells its category. -/
theorem eq_of_map_snd {as bs : List (Category × Record)} (h : as.map Prod.snd = bs.map Prod.snd)
    (ha : ∀ x ∈ as, Record.InTable x.1 x.2) (hb : ∀ x ∈ bs, Record.InTable x.1 x.2) : as = bs := by
  induction as generalizing bs with
  | nil => exact (List.map_eq_nil_iff.mp h.symm).symm
  | cons a as ih =>
    obtain ⟨b, bs', rfl, hsnd, hrest⟩ := List.map_eq_cons_iff.mp h.symm
    obtain ⟨ha, has⟩ := List.forall_mem_cons.mp ha
    obtain ⟨hb, hbs⟩ := List.forall_mem_cons.mp hb
    have hfst : a.1 = b.1 := ha.unique (hsnd ▸ hb)
    rw [Prod.ext hfst hsnd.symm, ih hrest.symm has hbs]

theorem inTable_under {filed : List (SubscriptionId × Category × Record)}
    (h : ∀ f ∈ filed, Record.InTable f.2.1 f.2.2) (id : SubscriptionId) :
    ∀ x ∈ under id filed, Record.InTable x.1 x.2 := by
  intro x hx
  obtain ⟨f, hf, rfl⟩ := List.mem_map.mp hx
  exact h f (List.mem_filter.mp hf).1

theorem inTable_filedBatches {batches : List (Category × Batch)}
    (h : ∀ b ∈ batches, ∀ r ∈ b.2.records, Record.InTable b.1 r) :
    ∀ f ∈ filedBatches batches, Record.InTable f.2.1 f.2.2 := by
  intro f hf
  obtain ⟨b, hb, hf⟩ := List.mem_flatMap.mp hf
  obtain ⟨r, hr, rfl⟩ := List.mem_map.mp hf
  exact h b hb r hr

theorem exists_categories {handed : List Batch} (h : ∀ b ∈ handed, OneTable b.records) :
    ∃ batches : List (Category × Batch), batches.map Prod.snd = handed ∧
      ∀ b ∈ batches, b.2.records ≠ [] ∧ ∀ r ∈ b.2.records, Record.InTable b.1 r := by
  induction handed with
  | nil => exact ⟨[], rfl, by simp⟩
  | cons b rest ih =>
    obtain ⟨⟨hne, c, hc⟩, hrest⟩ := List.forall_mem_cons.mp h
    obtain ⟨batches, rfl, hbatches⟩ := ih hrest
    exact ⟨(c, b) :: batches, rfl, List.forall_mem_cons.mpr ⟨⟨hne, hc⟩, hbatches⟩⟩

section Runs
variable {σ τ : Type} [BatchStore σ] [Node τ]

/-- The records that a step puts into the queue, each with the category that is registered for its
subscription. -/
def Step.filed (step : Step) (s : EventSink σ τ) : List (SubscriptionId × Category × Record) :=
  (step.calls s).filterMap fun call =>
    match s.manager.registry.lookup call.subscription with
    | some route =>
      if route.category = call.event.category then
        some (call.subscription, route.category, Record.ofEvent call.info call.event)
      else none
    | none => none

def filedAll : List Step → EventSink σ τ → List (SubscriptionId × Category × Record)
  | [], _ => []
  | step :: rest, s => step.filed s ++ filedAll rest (step.run s).2

omit [Node τ] in
theorem Step.map_filed (step : Step) (s : EventSink σ τ) :
    (step.filed s).map (fun f => (f.1, f.2.2)) = step.due s := by
  simp only [filed, due, Intake.due]
  induction step.calls s with
  | nil => rfl
  | cons call rest ih =>
    cases hl : s.manager.registry.lookup call.subscription with
    | none => simp [hl, ih]
    | some route =>
      by_cases hc : route.category = call.event.category <;> simp [hl, hc, ih]

omit [Node τ] in
theorem Step.inTable_filed {step : Step} {s : EventSink σ τ} :
    ∀ f ∈ step.filed s, Record.InTable f.2.1 f.2.2 := by
  intro f hf
  obtain ⟨call, _, he⟩ := List.mem_filterMap.mp hf
  split at he
  · split at he
    · rename_i hc
      cases he
      exact hc ▸ Record.inTable_ofEvent _ _
    · cases he
  · cases he

theorem map_filedAll (steps : List Step) (s : EventSink σ τ) :
    (filedAll steps s).map (fun f => (f.1, f.2.2)) = dueAll steps s := by
  induction steps generalizing s with
  | nil => rfl
  | cons step rest ih => simp only [filedAll, dueAll, List.map_append, Step.map_filed, ih]

theorem inTable_filedAll {steps : List Step} {s : EventSink σ τ} :
    ∀ f ∈ filedAll steps s, Record.InTable f.2.1 f.2.2 := by
  induction steps generalizing s with
  | nil => simp [filedAll]
  | cons step rest ih =>
    exact fun f hf => (List.mem_append.mp hf).elim (Step.inTable_filed f) (ih f)

end Runs

/-! ### Batches and buffers -/

section Purity
variable {σ τ : Type} [BatchStore σ] [Node τ]

/-- The buffered records of a subscription, with the category that is registered for it. -/
def waiting (id : SubscriptionId) (s : EventSink σ τ) : List (Category × Record) :=
  match s.manager.registry.lookup id with
  | some route => (s.manager.intake.queue.pending id).map (Prod.mk route.category)
  | none => []

omit [BatchStore σ] [Node τ] in
theorem housed_new (settings : Config.Ingest) (node : τ) (store : σ) (rules : Option Rules.Book) :
    (new settings node (⟨store, []⟩ : NotingStore σ) rules).manager.Housed where
  sound := Queue.sound_new _
  matched := by simp [Intake.Matched, new]
  buffered := by simp [new, Queue.new, pending, Sorted.find?]
  noted := by simp [new]

omit [BatchStore σ] [Node τ] in
theorem map_waiting {s : EventSink (NotingStore σ) τ} (h : s.manager.Housed) (id : SubscriptionId) :
    (waiting id s).map Prod.snd = s.manager.intake.queue.pending id := by
  simp only [waiting]
  split
  · simp [Function.comp_def]
  · rename_i hl
    exact (h.pending_eq_nil hl).symm

omit [BatchStore σ] [Node τ] in
theorem inTable_waiting {s : EventSink (NotingStore σ) τ} (h : s.manager.Housed) (id : SubscriptionId) :
    ∀ x ∈ waiting id s, Record.InTable x.1 x.2 := by
  intro x hx
  simp only [waiting] at hx
  split at hx
  · rename_i route hl
    obtain ⟨r, hr, rfl⟩ := List.mem_map.mp hx
    obtain ⟨c, hc, htable⟩ := h.buffered id r hr
    simp only [Manager.Routes, hl, Option.map_some, Option.some.injEq] at hc
    exact hc ▸ htable
  · cases hx

/-- In every state a subscription with buffered records is routed, and they are single rows of the table of
its category. Every batch that the store was ever given is of one table. For each subscription, the
batches and what is still buffered are in order the records that came in, under the category that was
registered for it when they did. -/
theorem batches_of_one_table (settings : Config.Ingest) (node : τ) (store : σ)
    (rules : Option Rules.Book) (steps : List Step) :
    let first := new settings node (⟨store, []⟩ : NotingStore σ) rules
    let last := (runAll steps first).2
    let intake := last.manager.intake
    (∀ id, intake.queue.pending id ≠ [] →
      ∃ c, last.manager.Routes c id ∧ ∀ r ∈ intake.queue.pending id, Record.InTable c r) ∧
    ∃ batches : List (Category × Batch),
      intake.store.noted = batches.map (fun b => b.2.records) ∧
      (∀ b ∈ batches, b.2.records ≠ [] ∧ ∀ r ∈ b.2.records, Record.InTable b.1 r) ∧
      ∀ id, under id (filedBatches batches) ++ waiting id last = under id (filedAll steps first) := by
  intro first last intake
  have hlast : last.manager.Housed := by
    have hcomplete : first.manager.Complete := complete_new settings node _ rules
    rw [runAll_eq_after]
    exact (housed_new settings node store rules).after hcomplete.agrees _
  refine ⟨fun id hne => ?_, ?_⟩
  · cases hl : last.manager.registry.lookup id with
    | none => exact absurd (hlast.pending_eq_nil hl) hne
    | some route =>
      have hroutes : last.manager.Routes route.category id := by simp [Manager.Routes, hl]
      refine ⟨route.category, hroutes, fun r hr => ?_⟩
      obtain ⟨c, hc, htable⟩ := hlast.buffered id r hr
      exact Option.some.inj (hc.symm.trans hroutes) ▸ htable
  · obtain ⟨⟨_, handed, hstore, hpending⟩, _⟩ :=
      took_runAll (coherent_new settings node (⟨store, []⟩ : NotingStore σ) rules) steps
    have hnoted : intake.store.noted = handed.map Batch.records := by
      rw [show intake.store = _ from hstore, NotingStore.noted_persistAll]
      rfl
    obtain ⟨batches, rfl, hbatches⟩ := exists_categories fun b hb =>
      hlast.noted b.records (hnoted ▸ List.mem_map_of_mem hb)
    refine ⟨batches, by simp [hnoted], hbatches, fun id => ?_⟩
    refine eq_of_map_snd ?_ (fun x hx => ?_) (inTable_under inTable_filedAll id)
    · rw [List.map_append, map_under, map_filedBatches, recordsFor_labelled, map_waiting hlast,
        map_under, map_filedAll]
      exact hpending id
    · rcases List.mem_append.mp hx with hx | hx
      · exact inTable_under (inTable_filedBatches fun b hb => (hbatches b hb).2) id x hx
      · exact inTable_waiting hlast id x hx

end Purity

end EventIntake.EventSink
