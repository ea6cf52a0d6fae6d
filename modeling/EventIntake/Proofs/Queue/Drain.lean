import EventIntake.Proofs.Queue.Runs
import EventIntake.Proofs.Store.Ledger

/-! A drain gives every buffer to the store, whatever the store answers, and closes the queue for good. -/
namespace EventIntake.Queue
open Event

/-! ### Closed queues -/

/-- What a closed queue answers. -/
def Call.refusal : Call → Answer
  | enqueue _ _ => .enqueued (.error .closed)
  | release _ => .released (.ok 0)
  | drain => .drained (.ok ())

section Closed
variable {σ : Type} [BatchStore σ] {q : Queue}

theorem pending_of_closed (hs : q.Sound) (hc : q.closed = true) (id : SubscriptionId) : q.pending id = [] := by
  rw [pending, hs.closed_empty hc]
  rfl

theorem close_of_closed (hs : q.Sound) (hc : q.closed = true) : q.close = ([], q) := by
  have hempty := hs.closed_empty hc
  obtain ⟨threshold, hpos, buffers, closed⟩ := q
  subst hempty hc
  rfl

theorem remove_of_closed (hs : q.Sound) (hc : q.closed = true) (id : SubscriptionId) :
    q.remove id = (none, q) := by
  have hempty := hs.closed_empty hc
  obtain ⟨threshold, hpos, buffers, closed⟩ := q
  subst hempty
  rfl

/-- A closed queue refuses every call, stays as it is and leaves the store alone. -/
theorem Call.run_of_closed (hs : q.Sound) (hc : q.closed = true) (c : Call) (s : σ) :
    c.run q s = (c.refusal, q, s) := by
  cases c with
  | enqueue id r =>
    rw [run, Queue.enqueue, add_of_closed hc]
    rfl
  | release id =>
    rw [run, Queue.release, remove_of_closed hs hc]
    rfl
  | drain =>
    rw [run, Queue.drain, close_of_closed hs hc]
    rfl

theorem runAll_of_closed (hs : q.Sound) (hc : q.closed = true) (calls : List Call) (s : σ) :
    runAll calls q s = (calls.map fun c => (c, c.refusal), q, s) := by
  induction calls with
  | nil => rfl
  | cons c rest ih => simp only [runAll, c.run_of_closed hs hc, ih, List.map_cons]

end Closed

/-! ### The buffers that a drain stores -/

/-- How the drain of a queue goes. The store is given the buffers of the subscriptions in `asked`, each as a whole,
and gives the answers there. -/
structure Drains {σ : Type} [BatchStore σ] (q : Queue) (s : Ledger σ)
    (asked : List (SubscriptionId × Except StorageError Unit)) : Prop where
  ascending : Sorted.Ascending asked
  complete : ∀ id, id ∈ asked.map Prod.fst ↔ q.pending id ≠ []
  stored : (q.drain s).2.2.entries = s.entries ++ asked.map fun a => ⟨q.pending a.1, a.2⟩
  ok_iff : (q.drain s).1 = .ok () ↔ ∀ a ∈ asked, a.2 = .ok ()
  first_loss : ∀ e, (q.drain s).1 = .error e →
    ∃ a ∈ asked, ∃ cause, a.2 = .error cause ∧ e = .flush a.1 (q.pending a.1).length cause ∧
      ∀ b ∈ asked, b.2 ≠ .ok () → a.1 ≤ b.1
  closed : (q.drain s).2.1.closed = true
  emptied : ∀ id, (q.drain s).2.1.pending id = []

section Drain
variable {σ : Type} [BatchStore σ] {q : Queue}

/-- The answers of the store during a drain, each with the subscription it is about. -/
def asked (q : Queue) (s : Ledger σ) : List (SubscriptionId × Except StorageError Unit) :=
  (BatchStore.answers q.close.1 s).map fun a => (a.1.subscription, a.2)

theorem map_fst_asked (q : Queue) (s : Ledger σ) : (q.asked s).map Prod.fst = q.buffers.map Prod.fst := by
  have hbatches := map_fst_answers q.close.1 s
  calc
    (q.asked s).map Prod.fst = ((BatchStore.answers q.close.1 s).map Prod.fst).map Batch.subscription := by
      simp [asked]
    _ = q.buffers.map Prod.fst := by
      rw [hbatches]
      simp [close]

theorem records_eq_pending (hs : q.Sound) {s : Ledger σ} {a : Batch × Except StorageError Unit}
    (ha : a ∈ BatchStore.answers q.close.1 s) : a.1.records = q.pending a.1.subscription := by
  have hbatch : a.1 ∈ Call.drain.handed q := by
    rw [Call.handed, ← map_fst_answers q.close.1 s]
    exact List.mem_map_of_mem ha
  have hbuffer := Call.mem_buffers (by simp) hbatch
  rw [pending, hs.ascending.find?_eq_some_iff.mpr hbuffer, Option.getD_some]

theorem entries_drain (hs : q.Sound) (s : Ledger σ) :
    (q.drain s).2.2.entries = s.entries ++ (q.asked s).map fun a => ⟨q.pending a.1, a.2⟩ := by
  have hstore : (q.drain s).2.2 = BatchStore.persistAll q.close.1 s := flushAll_store q.close.1 s
  rw [hstore, Ledger.entries_persistAll, asked, List.map_map]
  refine congrArg (s.entries ++ ·) (List.map_congr_left fun a ha => ?_)
  rw [records_eq_pending hs ha]
  rfl

theorem drain_fst (q : Queue) (s : Ledger σ) :
    (q.drain s).1 = match (BatchStore.answers q.close.1 s).findSome? lost? with
      | some e => .error e
      | none => .ok () :=
  flushAll_fst q.close.1 s

theorem drains (hs : q.Sound) (s : Ledger σ) : q.Drains s (q.asked s) where
  ascending := List.pairwise_map.mpr (ascending_answers hs s)
  complete id := by
    have hfound : (if q.pending id = [] then none else some (q.pending id)) = none ↔ id ∉ q.buffers.map Prod.fst :=
      hs.find?_buffers id ▸ Sorted.find?_eq_none_iff
    rw [map_fst_asked]
    by_cases h : q.pending id = [] <;> simpa [h] using hfound
  stored := entries_drain hs s
  ok_iff := by
    have hnone : (q.drain s).1 = .ok () ↔ (BatchStore.answers q.close.1 s).findSome? lost? = none := by
      rw [drain_fst]
      cases (BatchStore.answers q.close.1 s).findSome? lost? <;> simp
    rw [hnone, asked, List.forall_mem_map]
    simp only [List.findSome?_eq_none_iff, lost?_eq_none_iff]
  first_loss e he := by
    have hsome : (BatchStore.answers q.close.1 s).findSome? lost? = some e := by
      rw [drain_fst] at he
      split at he <;> simp_all
    obtain ⟨⟨b, answer⟩, hmem, hlost, hleast⟩ := exists_smallest_lost (ascending_answers hs s) hsome
    refine ⟨(b.subscription, answer), List.mem_map_of_mem hmem, ?_⟩
    cases answer with
    | ok _ => cases hlost
    | error cause =>
      obtain rfl := Option.some.inj hlost
      have hrecords := records_eq_pending hs hmem
      exact ⟨cause, rfl, by rw [← hrecords], List.forall_mem_map.mpr hleast⟩
  closed := rfl
  emptied id := pending_of_closed (sound_close q) rfl id

/-- However a new queue was used and whatever the store answers, a drain gives the store every buffer that is not
empty, once and as a whole, in the order of the subscriptions, also after failures. It succeeds if all were stored,
else it reports the smallest subscription that lost its records. The queue is empty and closed from then on:
whatever is called later is refused, and neither the queue nor the store changes again. -/
theorem drained_for_good (threshold : Nat) (calls : List Call) (store : σ) :
    let (_, q, s) := runAll calls (new threshold) (⟨store, []⟩ : Ledger σ)
    let (_, q', s') := q.drain s
    (∃ asked, q.Drains s asked) ∧
      ∀ later, runAll later q' s' = (later.map fun c => (c, c.refusal), q', s') := by
  have hs := sound_runAll calls (sound_new threshold) (⟨store, []⟩ : Ledger σ)
  exact ⟨⟨_, drains hs _⟩, fun later => runAll_of_closed (sound_close _) rfl later _⟩

end Drain

end EventIntake.Queue
