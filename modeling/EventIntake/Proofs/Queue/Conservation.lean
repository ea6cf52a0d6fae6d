import EventIntake.Proofs.Queue.Buffers
import EventIntake.Queue.Flush

/-! Runs of a queue in front of any store. What was handed to the store for a subscription and what is
still buffered for it are, in order, the records that were accepted for it. -/
namespace EventIntake
open Event

/-- A store after it was given batches in order, whatever its answers. -/
def BatchStore.persistAll {σ : Type} [BatchStore σ] (batches : List Batch) (s : σ) : σ :=
  batches.foldl (fun s b => (BatchStore.persist b.records s).2) s

namespace Queue

/-- A call on a queue. -/
inductive Call
  | enqueue (id : SubscriptionId) (r : Record)
  | release (id : SubscriptionId)
  | drain
  deriving DecidableEq, Repr

/-- What a call returns. -/
inductive Answer
  | enqueued (result : Except QueueError Outcome)
  | released (result : Except QueueError Nat)
  | drained (result : Except QueueError Unit)
  deriving Repr

namespace Call

/-- The answer to a call, and the queue and the store after it. -/
def run {σ : Type} [BatchStore σ] (c : Call) (q : Queue) (s : σ) : Answer × Queue × σ :=
  match c with
  | enqueue id r =>
    let (result, q, s) := q.enqueue id r s
    (.enqueued result, q, s)
  | release id =>
    let (result, q, s) := q.release id s
    (.released result, q, s)
  | drain =>
    let (result, q, s) := q.drain s
    (.drained result, q, s)

/-- The batches that a call takes out of the queue, in the order the store gets them. -/
def handed : Call → Queue → List Batch
  | enqueue id r, q => (q.add id r).1.batch?.toList
  | release id, q => (q.remove id).1.toList
  | drain, q => q.close.1

/-- The queue after a call. No answer of the store has a part in it. -/
def next : Call → Queue → Queue
  | enqueue id r, q => (q.add id r).2
  | release id, q => (q.remove id).2
  | drain, q => q.close.2

/-- The record that a call adds for a subscription, unless the queue is closed. -/
def adds (id : SubscriptionId) : Call → Queue → List Record
  | enqueue j r, q => if q.closed = false ∧ j = id then [r] else []
  | _, _ => []

end Call

/-- A record that was added for a subscription and not refused because the queue was closed. -/
def accepted? (id : SubscriptionId) : Call × Answer → Option Record
  | (.enqueue _ _, .enqueued (.error .closed)) => none
  | (.enqueue j r, .enqueued _) => if j = id then some r else none
  | _ => none

/-- The calls with their answers in order, and the queue and the store after the last. -/
def runAll {σ : Type} [BatchStore σ] : List Call → Queue → σ → List (Call × Answer) × Queue × σ
  | [], q, s => ([], q, s)
  | c :: rest, q, s =>
    let (answer, q, s) := c.run q s
    let (answers, q, s) := runAll rest q s
    ((c, answer) :: answers, q, s)

/-- The batches that leave the queue during a run. -/
def handedAll : List Call → Queue → List Batch
  | [], _ => []
  | c :: rest, q => c.handed q ++ handedAll rest (c.next q)

/-! ### One call -/

section Step
variable {σ : Type} [BatchStore σ]

theorem flush_store (b : Batch) (s : σ) : (flush b s).2 = BatchStore.persistAll [b] s := by
  simp only [flush, BatchStore.persistAll, List.foldl_cons, List.foldl_nil]
  split <;> rename_i h <;> rw [h]

theorem flush_fst_of_persist {b : Batch} {s : σ} (h : (BatchStore.persist b.records s).1 = .ok ()) :
    (flush b s).1 = .ok b.records.length := by
  simp only [flush]
  split <;> simp_all

theorem persistAll_append (as bs : List Batch) (s : σ) :
    BatchStore.persistAll (as ++ bs) s = BatchStore.persistAll bs (BatchStore.persistAll as s) :=
  List.foldl_append

theorem flushAll_store (batches : List Batch) (s : σ) :
    (flushAll batches s).2 = BatchStore.persistAll batches s := by
  induction batches generalizing s with
  | nil => rfl
  | cons b rest ih =>
    rw [← List.singleton_append, persistAll_append, ← flush_store]
    simp only [List.singleton_append, flushAll]
    split <;> rename_i h <;> simp only [h, ih]

/-- A call moves the queue on its own and gives the store just the batches it takes out. -/
theorem Call.run_state (c : Call) (q : Queue) (s : σ) :
    (c.run q s).2 = (c.next q, BatchStore.persistAll (c.handed q) s) := by
  cases c with
  | enqueue id r =>
    simp only [run, Queue.enqueue, next, handed]
    rcases q.add id r with ⟨_ | _ | b, q'⟩
    · rfl
    · rfl
    · exact Prod.ext rfl (flush_store b s)
  | release id =>
    simp only [run, Queue.release, next, handed]
    rcases q.remove id with ⟨_ | b, q'⟩
    · rfl
    · exact Prod.ext rfl (flush_store b s)
  | drain => exact Prod.ext rfl (flushAll_store _ s)

/-- A record is accepted unless the queue is closed, also when its batch fails. -/
theorem Call.accepted?_run (c : Call) (q : Queue) (s : σ) (id : SubscriptionId) :
    (accepted? id (c, (c.run q s).1)).toList = c.adds id q := by
  cases c with
  | release | drain => rfl
  | enqueue j r =>
    have hr := refused_iff (q := q) j r
    simp only [run, Queue.enqueue, adds]
    rcases h : q.add j r with ⟨_ | _ | b, q'⟩
    · simp_all [accepted?]
    · by_cases hj : j = id <;> simp_all [accepted?]
    · have ho : q.closed = false := by simpa [h] using hr
      simp only [flush]
      rcases BatchStore.persist b.records s with ⟨_ | _, s'⟩ <;>
        by_cases hj : j = id <;> simp [accepted?, Except.map, ho, hj]

end Step

theorem Call.sound_next {q : Queue} (hs : q.Sound) (c : Call) : (c.next q).Sound := by
  cases c with
  | enqueue id r => exact sound_add hs id r
  | release id => exact sound_remove hs id
  | drain => exact sound_close q

theorem Call.conserves {q : Queue} (hs : q.Sound) (c : Call) (id : SubscriptionId) :
    recordsOf id (c.handed q) ++ (c.next q).pending id = q.pending id ++ c.adds id q := by
  cases c with
  | enqueue j r =>
    cases ho : q.closed with
    | true => simp [handed, next, adds, add_of_closed ho, ho, Added.batch?]
    | false => simpa [handed, next, adds, ho] using add_conserves hs ho j id r
  | release j => simpa [handed, next, adds] using remove_conserves hs j id
  | drain => simpa [handed, next, adds] using close_conserves hs id

/-! ### Runs -/

theorem runAll_store {σ : Type} [BatchStore σ] (calls : List Call) (q : Queue) (s : σ) :
    (runAll calls q s).2.2 = BatchStore.persistAll (handedAll calls q) s := by
  induction calls generalizing q s with
  | nil => rfl
  | cons c rest ih =>
    simp only [runAll, handedAll, ih, persistAll_append, c.run_state q s]

/-- From any sound queue on, a run hands over and keeps what was buffered and what it accepts. -/
theorem runAll_conserves {σ : Type} [BatchStore σ] (calls : List Call) {q : Queue} (hs : q.Sound)
    (s : σ) (id : SubscriptionId) :
    recordsOf id (handedAll calls q) ++ (runAll calls q s).2.1.pending id =
      q.pending id ++ (runAll calls q s).1.filterMap (accepted? id) := by
  induction calls generalizing q s with
  | nil => simp [runAll, handedAll]
  | cons c rest ih =>
    have hq : (c.run q s).2.1 = c.next q := congrArg Prod.fst (c.run_state q s)
    have ht := ih (c.sound_next hs) (c.run q s).2.2
    have ha := c.accepted?_run q s id
    simp only [runAll, handedAll, recordsOf_append, hq, List.append_assoc]
    rw [ht, ← List.append_assoc, c.conserves hs id, ← ha, List.append_assoc]
    cases hc : accepted? id (c, (c.run q s).1) <;> simp [hc]

/-- Every record that a new queue accepts is given to the store once, in order and for its own
subscription, or is still buffered. A failed batch is not given again, and a refused record never. The
store is any, one that notes its calls included. -/
theorem handed_and_pending_eq_accepted {σ : Type} [BatchStore σ] (threshold : Nat)
    (calls : List Call) (s : σ) :
    let (answers, q, stored) := runAll calls (new threshold) s
    let handed := handedAll calls (new threshold)
    stored = BatchStore.persistAll handed s ∧
      ∀ id, recordsOf id handed ++ q.pending id = answers.filterMap (accepted? id) :=
  ⟨runAll_store calls _ s, fun id => runAll_conserves calls (sound_new threshold) s id⟩

end Queue

end EventIntake
