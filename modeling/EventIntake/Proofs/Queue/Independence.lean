import EventIntake.Proofs.Queue.Threshold
import EventIntake.Proofs.Store.Memory

/-! What becomes of the calls for one subscription depends on these calls alone, not on those for others between
them. -/
namespace EventIntake
open Event

/-! ### Stores with fixed answers -/

namespace BatchStore
variable {σ : Type} [BatchStore σ] {f : List Record → Except StorageError Unit} {s : σ}

/-- Batches are answered as `f` says, whatever batches came before. -/
def AnswersBy (f : List Record → Except StorageError Unit) (s : σ) : Prop :=
  ∀ (before : List Batch) (records : List Record), (persist records (persistAll before s)).1 = f records

theorem AnswersBy.persist_fst (h : AnswersBy f s) (records : List Record) : (persist records s).1 = f records :=
  h [] records

theorem AnswersBy.persistAll (h : AnswersBy f s) (batches : List Batch) :
    AnswersBy f (BatchStore.persistAll batches s) := by
  intro before records
  rw [← Queue.persistAll_append]
  exact h (batches ++ before) records

end BatchStore

namespace MemoryStore

theorem failures_persistAll (batches : List Batch) (s : MemoryStore) :
    (BatchStore.persistAll batches s).failing = s.failing ∧
      (BatchStore.persistAll batches s).failingRow = s.failingRow := by
  induction batches generalizing s with
  | nil => exact ⟨rfl, rfl⟩
  | cons b rest ih =>
    have hfailures : (s.persist b.records).2.failing = s.failing ∧
        (s.persist b.records).2.failingRow = s.failingRow := by
      simp only [MemoryStore.persist]
      split
      · exact ⟨rfl, rfl⟩
      · split <;> exact ⟨rfl, rfl⟩
    obtain ⟨hfailing, hrow⟩ := ih (s.persist b.records).2
    exact ⟨hfailing.trans hfailures.1, hrow.trans hfailures.2⟩

/-- The answer of a store in memory depends on the number of rows only. -/
theorem answersBy (s : MemoryStore) :
    BatchStore.AnswersBy (fun records => match s.failure? records.flatten.length with
      | some e => .error e
      | none => .ok ()) s := by
  intro before records
  obtain ⟨hfailing, hrow⟩ := failures_persistAll before s
  have hfailure (rows : Nat) : (BatchStore.persistAll before s).failure? rows = s.failure? rows := by
    rw [failure?, failure?, hfailing, hrow]
  change (MemoryStore.persist records _).1 = _
  simp only [MemoryStore.persist, hfailure]
  cases s.failure? records.flatten.length with
  | some e => rfl
  | none =>
    simp only
    split <;> rfl

end MemoryStore

namespace Queue

/-! ### One subscription alone -/

/-- What a queue makes of the answer of a store to a batch. -/
def flushed (f : List Record → Except StorageError Unit) (b : Batch) : Except QueueError Nat :=
  match f b.records with
  | .ok () => .ok b.records.length
  | .error e => .error (.flush b.subscription b.records.length e)

/-- What a run shows of a subscription: the answers to its calls, its batches, and what is left in its buffer. -/
structure View where
  answers : List (Call × Answer)
  batches : List Batch
  pending : List Record

namespace Call

/-- Whether the call is for the subscription. -/
def isFor (id : SubscriptionId) : Call → Bool
  | enqueue j _ => j = id
  | release j => j = id
  | drain => false

/-- The batch that a call takes out of a buffer, where a batch of `t` records is full. -/
def batch? (t : Nat) : Call → List Record → Option Batch
  | enqueue id r, pending => if pending.length + 1 < t then none else some ⟨id, pending ++ [r]⟩
  | release id, pending => if pending = [] then none else some ⟨id, pending⟩
  | drain, _ => none

/-- What the call leaves in the buffer. -/
def leaves (t : Nat) : Call → List Record → List Record
  | enqueue _ r, pending => if pending.length + 1 < t then pending ++ [r] else []
  | release _, _ => []
  | drain, pending => pending

/-- The answer to the call. -/
def answer (f : List Record → Except StorageError Unit) (t : Nat) (c : Call) (pending : List Record) : Answer :=
  match c, c.batch? t pending with
  | enqueue _ _, none => .enqueued (.ok (.buffered (pending.length + 1)))
  | enqueue _ _, some b => .enqueued ((flushed f b).map .flushed)
  | release _, none => .released (.ok 0)
  | release _, some b => .released (flushed f b)
  | drain, _ => .drained (.ok ())

end Call

/-- The calls for one subscription in front of its buffer. -/
def alone (f : List Record → Except StorageError Unit) (t : Nat) : List Call → List Record → View
  | [], pending => ⟨[], [], pending⟩
  | c :: rest, pending =>
    let later := alone f t rest (c.leaves t pending)
    ⟨(c, c.answer f t pending) :: later.answers, (c.batch? t pending).toList ++ later.batches, later.pending⟩

section Step
variable {σ : Type} [BatchStore σ] {f : List Record → Except StorageError Unit} {q : Queue} {s : σ}
  {id : SubscriptionId} {c : Call}

theorem remove_fst (hs : q.Sound) (id : SubscriptionId) :
    (q.remove id).1 = if q.pending id = [] then none else some ⟨id, q.pending id⟩ := by
  rw [remove, hs.find?_buffers]
  split <;> rfl

theorem flush_fst (hf : BatchStore.AnswersBy f s) (b : Batch) : (flush b s).1 = flushed f b := by
  rw [flushed, ← hf.persist_fst]
  simp only [flush]
  rcases BatchStore.persist b.records s with ⟨e | _, _⟩ <;> rfl

theorem Call.eq_of_isFor (hc : c.isFor id = true) : (∃ r, c = enqueue id r) ∨ c = release id := by
  cases c with
  | enqueue j r => exact .inl ⟨r, congrArg (enqueue · r) (of_decide_eq_true hc)⟩
  | release j => exact .inr (congrArg release (of_decide_eq_true hc))
  | drain => cases hc

theorem Call.handed_of_isFor (hs : q.Sound) (ho : q.closed = false) (hc : c.isFor id = true) :
    c.handed q = (c.batch? q.threshold (q.pending id)).toList := by
  rcases eq_of_isFor hc with ⟨r, rfl⟩ | rfl
  · rw [handed, batch?_add ho, batch?]
  · rw [handed, remove_fst hs, batch?]

theorem Call.pending_of_isFor (hs : q.Sound) (ho : q.closed = false) (hc : c.isFor id = true) :
    (c.next q).pending id = c.leaves q.threshold (q.pending id) := by
  rcases eq_of_isFor hc with ⟨r, rfl⟩ | rfl
  · rw [next, pending_add hs ho, if_pos rfl, leaves]
  · rw [next, pending_remove hs, if_pos rfl, leaves]

theorem Call.answer_of_isFor (hs : q.Sound) (ho : q.closed = false) (hf : BatchStore.AnswersBy f s)
    (hc : c.isFor id = true) : (c.run q s).1 = c.answer f q.threshold (q.pending id) := by
  rcases eq_of_isFor hc with ⟨r, rfl⟩ | rfl
  · have hadd := add_fst ho id r
    simp only [run, Queue.enqueue, answer, batch?]
    rcases hq : q.add id r with ⟨added, q'⟩
    rw [hq] at hadd
    by_cases hl : (q.pending id).length + 1 < q.threshold
    · obtain rfl : added = .buffered ((q.pending id).length + 1) := hadd.trans (if_pos hl)
      rw [if_pos hl]
    · obtain rfl : added = .full ⟨id, q.pending id ++ [r]⟩ := hadd.trans (if_neg hl)
      rw [if_neg hl]
      simp only [flush_fst hf]
  · have hremove := remove_fst hs id
    simp only [run, Queue.release, answer, batch?]
    rcases hq : q.remove id with ⟨batch, q'⟩
    rw [hq] at hremove
    rw [← hremove]
    cases batch with
    | none => rfl
    | some b => simp only [flush_fst hf]

theorem Call.subscription_batch? {t : Nat} {pending : List Record} (hc : c.isFor id = true) :
    ∀ b ∈ (c.batch? t pending).toList, b.subscription = id := by
  intro b hb
  rcases eq_of_isFor hc with ⟨r, rfl⟩ | rfl
  all_goals
    simp only [batch?] at hb
    split at hb
    · cases hb
    · rw [List.mem_singleton.mp hb]

/-- A call for another subscription takes out no batch of this one and leaves its buffer. -/
theorem Call.other (hs : q.Sound) (ho : q.closed = false) (hc : c.isFor id = false) (hd : c ≠ drain) :
    (c.handed q).filter (fun b => b.subscription = id) = [] ∧ (c.next q).pending id = q.pending id := by
  cases c with
  | enqueue j r =>
    have hj : ¬j = id := by simpa [isFor] using hc
    refine ⟨List.filter_eq_nil_iff.mpr fun b hb => ?_, ?_⟩
    · simp [eq_of_mem_handed hb, hj]
    · rw [next, pending_add hs ho, if_neg (Ne.symm hj)]
  | release j =>
    have hj : ¬j = id := by simpa [isFor] using hc
    refine ⟨?_, by rw [next, pending_remove hs, if_neg (Ne.symm hj)]⟩
    rw [handed, remove_fst hs]
    split
    · rfl
    · simp [hj]
  | drain => exact absurd rfl hd

theorem Call.closed_next (ho : q.closed = false) (hd : c ≠ drain) : (c.next q).closed = false := by
  cases c with
  | enqueue j r => exact (closed_add q j r).trans ho
  | release j => exact ho
  | drain => exact absurd rfl hd

end Step

/-! ### Runs -/

section Runs
variable {σ : Type} [BatchStore σ] {f : List Record → Except StorageError Unit}

/-- What a run shows of a subscription among others. -/
def view (id : SubscriptionId) (calls : List Call) (q : Queue) (s : σ) : View where
  answers := (runAll calls q s).1.filter fun a => a.1.isFor id
  batches := (handedAll calls q).filter fun b => b.subscription = id
  pending := (runAll calls q s).2.1.pending id

theorem view_cons (id : SubscriptionId) (c : Call) (rest : List Call) (q : Queue) (s : σ) :
    view id (c :: rest) q s =
      let later := view id rest (c.next q) (BatchStore.persistAll (c.handed q) s)
      { answers := [(c, (c.run q s).1)].filter (fun a => a.1.isFor id) ++ later.answers
        batches := (c.handed q).filter (fun b => b.subscription = id) ++ later.batches
        pending := later.pending } := by
  simp only [view, runAll, handedAll, c.run_state q s, ← List.filter_append, List.singleton_append]

/-- Among others a subscription is shown what it is shown alone. -/
theorem view_eq_alone {id : SubscriptionId} {calls : List Call} (hcalls : ∀ c ∈ calls, c ≠ .drain) {q : Queue}
    (hs : q.Sound) (ho : q.closed = false) {s : σ} (hf : BatchStore.AnswersBy f s) :
    view id calls q s = alone f q.threshold (calls.filter (Call.isFor id)) (q.pending id) := by
  induction calls generalizing q s with
  | nil => rfl
  | cons c rest ih =>
    obtain ⟨hd, hrest⟩ := List.forall_mem_cons.mp hcalls
    have hlater := ih hrest (c.sound_next hs) (Call.closed_next ho hd) (hf.persistAll (c.handed q))
    rw [c.threshold_next] at hlater
    rw [view_cons, hlater]
    cases hc : c.isFor id with
    | true =>
      have hbatches : (c.batch? q.threshold (q.pending id)).toList.filter (fun b => b.subscription = id) = _ :=
        List.filter_eq_self.mpr fun b hb => decide_eq_true (Call.subscription_batch? hc b hb)
      rw [List.filter_cons_of_pos hc, alone, Call.pending_of_isFor hs ho hc, Call.handed_of_isFor hs ho hc,
        hbatches, Call.answer_of_isFor hs ho hf hc]
      simp [hc]
    | false =>
      obtain ⟨hbatches, hpending⟩ := Call.other hs ho hc hd
      rw [List.filter_cons_of_neg (by simp [hc]), hpending, hbatches]
      simp [hc]

/-- Two runs of a new queue with the same calls for a subscription, in the same order, show the same of it: the
answers, the batches that the store is given for it, and the buffer that is left. What is called for others
between them may differ, and may be dropped. The store may answer each batch as it likes, but always alike. -/
theorem view_of_own_calls (threshold : Nat) {s : σ} (hf : BatchStore.AnswersBy f s) {calls calls' : List Call}
    (hcalls : ∀ c ∈ calls, c ≠ .drain) (hcalls' : ∀ c ∈ calls', c ≠ .drain) :
    (∀ id, calls.filter (Call.isFor id) = calls'.filter (Call.isFor id) →
      view id calls (new threshold) s = view id calls' (new threshold) s) ∧
    (∀ id, view id (calls.filter (Call.isFor id)) (new threshold) s = view id calls (new threshold) s) ∧
    (runAll calls (new threshold) s).2.2 = BatchStore.persistAll (handedAll calls (new threshold)) s := by
  have hsound := sound_new threshold
  have hopen : (new threshold).closed = false := rfl
  refine ⟨fun id he => ?_, fun id => ?_, runAll_store calls (new threshold) s⟩
  · rw [view_eq_alone hcalls hsound hopen hf, view_eq_alone hcalls' hsound hopen hf, he]
  · have hown : ∀ c ∈ calls.filter (Call.isFor id), c ≠ .drain := fun c hc => hcalls c (List.mem_filter.mp hc).1
    rw [view_eq_alone hown hsound hopen hf, view_eq_alone hcalls hsound hopen hf, List.filter_filter]
    simp

/-- A batch of two rows is lost and a batch of none is stored, whether the call for 2 comes before the loss or
after it. -/
theorem interleaved_same_view :
    let row : Row := ⟨"t", [], []⟩
    let s : MemoryStore := { failingRow := some 1 }
    let calls : List Call := [.enqueue 1 [row], .enqueue 2 [], .enqueue 1 [row], .enqueue 1 [], .release 1]
    let calls' : List Call := [.enqueue 1 [row], .enqueue 1 [row], .enqueue 1 [], .enqueue 2 [], .release 1]
    (∀ c ∈ calls, c ≠ .drain) ∧ (∀ c ∈ calls', c ≠ .drain) ∧
      calls.filter (Call.isFor 1) = calls'.filter (Call.isFor 1) ∧
      view 1 calls (new 2) s = view 1 calls' (new 2) s := by
  intro row s calls calls'
  have hcalls : ∀ c ∈ calls, c ≠ .drain := by simp [calls]
  have hcalls' : ∀ c ∈ calls', c ≠ .drain := by simp [calls']
  have hown : calls.filter (Call.isFor 1) = calls'.filter (Call.isFor 1) := rfl
  exact ⟨hcalls, hcalls', hown, (view_of_own_calls 2 s.answersBy hcalls hcalls').1 1 hown⟩

end Runs

end Queue

end EventIntake
