import EventIntake.Proofs.Queue.Conservation

/-! Runs of a queue one after the other, runs that only add records, and the batches of any run. -/
namespace EventIntake.Queue
open Event

section Runs
variable {σ : Type} [BatchStore σ]

theorem runAll_append (calls rest : List Call) (q : Queue) (s : σ) :
    runAll (calls ++ rest) q s =
      let (answers, q, s) := runAll calls q s
      let (later, q, s) := runAll rest q s
      (answers ++ later, q, s) := by
  induction calls generalizing q s with
  | nil => rfl
  | cons c calls ih => simp only [List.cons_append, runAll, ih]

theorem Call.run_queue (c : Call) (q : Queue) (s : σ) : (c.run q s).2.1 = c.next q :=
  congrArg Prod.fst (c.run_state q s)

theorem sound_runAll (calls : List Call) {q : Queue} (hs : q.Sound) (s : σ) :
    (runAll calls q s).2.1.Sound := by
  induction calls generalizing q s with
  | nil => exact hs
  | cons c rest ih => exact ih (c.run_queue q s ▸ c.sound_next hs) _

/-! ### Records added one after the other -/

/-- The calls that add records in order. -/
def enqueues (records : List (SubscriptionId × Record)) : List Call :=
  records.map fun r => .enqueue r.1 r.2

theorem Call.closed_run_enqueue (id : SubscriptionId) (r : Record) (q : Queue) (s : σ) :
    ((Call.enqueue id r).run q s).2.1.closed = q.closed :=
  (congrArg closed (Call.run_queue _ q s)).trans (closed_add q id r)

theorem closed_enqueues (q : Queue) (s : σ) (records : List (SubscriptionId × Record)) :
    (runAll (enqueues records) q s).2.1.closed = q.closed := by
  induction records generalizing q s with
  | nil => rfl
  | cons r rest ih => exact (ih _ _).trans (Call.closed_run_enqueue r.1 r.2 q s)

theorem accepted_enqueues (q : Queue) (s : σ) (records : List (SubscriptionId × Record))
    (id : SubscriptionId) :
    (runAll (enqueues records) q s).1.filterMap (accepted? id) =
      if q.closed then [] else recordsFor id records := by
  induction records generalizing q s with
  | nil => exact (ite_self _).symm
  | cons r rest ih =>
    obtain ⟨j, r⟩ := r
    have ha := (Call.enqueue j r).accepted?_run q s id
    have ht := ih ((Call.enqueue j r).run q s).2.1 ((Call.enqueue j r).run q s).2.2
    have hl : recordsFor id ((j, r) :: rest) = (if j = id then [r] else []) ++ recordsFor id rest := by
      by_cases hj : j = id <;> simp [recordsFor, hj]
    rw [Call.closed_run_enqueue] at ht
    have hc : (runAll (enqueues ((j, r) :: rest)) q s).1.filterMap (accepted? id) =
        (Call.enqueue j r).adds id q ++ if q.closed then [] else recordsFor id rest := by
      rw [← ha, ← ht]
      simp only [enqueues, List.map_cons, runAll, List.filterMap_cons]
      cases accepted? id (.enqueue j r, ((Call.enqueue j r).run q s).1) <;> rfl
    rw [hc, hl]
    cases ho : q.closed <;> simp [Call.adds, ho]

end Runs

/-! ### Batches -/

/-- A batch that an added record completes ends with it. -/
theorem Call.eq_of_mem_handed {q : Queue} {id : SubscriptionId} {r : Record} {b : Batch}
    (hb : b ∈ (enqueue id r).handed q) : b = ⟨id, q.pending id ++ [r]⟩ := by
  simp only [handed, add] at hb
  split at hb
  · simp [Added.batch?] at hb
  · split at hb
    · simp [Added.batch?] at hb
    · simpa [Added.batch?] using hb

/-- Any other batch is a buffer that was taken out. -/
theorem Call.mem_buffers {q : Queue} {c : Call} {b : Batch} (hc : ∀ id r, c ≠ enqueue id r) (hb : b ∈ c.handed q) :
    (b.subscription, b.records) ∈ q.buffers := by
  cases c with
  | enqueue id r => exact absurd rfl (hc id r)
  | release id =>
    cases h : Sorted.find? id q.buffers with
    | none => simp [handed, remove, h] at hb
    | some records =>
      simp only [handed, remove, h, Option.map_some, Option.toList_some, List.mem_singleton] at hb
      exact hb ▸ Sorted.mem_of_find? h
  | drain =>
    obtain ⟨buffer, hbuffer, rfl⟩ := List.mem_map.mp hb
    exact hbuffer

/-- No empty batch leaves a queue. -/
theorem Call.handed_ne_nil {q : Queue} (hs : q.Sound) (c : Call) : ∀ b ∈ c.handed q, b.records ≠ [] := by
  intro b hb
  cases c with
  | enqueue id r => simp [eq_of_mem_handed hb]
  | release | drain => exact (hs.partly_filled _ (mem_buffers (by simp) hb)).1

theorem handedAll_ne_nil (calls : List Call) {q : Queue} (hs : q.Sound) :
    ∀ b ∈ handedAll calls q, b.records ≠ [] := by
  induction calls generalizing q with
  | nil => simp [handedAll]
  | cons c rest ih =>
    intro b hb
    rcases List.mem_append.mp hb with hb | hb
    · exact c.handed_ne_nil hs b hb
    · exact ih (c.sound_next hs) b hb

end EventIntake.Queue
