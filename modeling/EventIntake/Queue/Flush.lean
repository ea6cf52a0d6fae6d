import EventIntake.Queue.Basic
import EventIntake.Store.Basic

/-! A queue in front of a store. -/
namespace EventIntake
open Event

inductive QueueError
  | closed
  | flush (subscription : SubscriptionId) (count : Nat) (source : StorageError)
  deriving DecidableEq, Repr

def QueueError.message : QueueError → String
  | closed => "Queue is closed"
  | flush subscription count source =>
    "Flush of " ++ toString count ++ " record(s) for subscription " ++ toString subscription.toNat ++
      " failed: " ++ source.message

namespace Queue

/-- What became of an accepted record: it waits with others, or a whole batch was stored. -/
inductive Outcome
  | buffered (pending : Nat)
  | flushed (count : Nat)
  deriving DecidableEq, Repr

variable {σ : Type} [BatchStore σ]

/-- Hands a batch to the store and counts its records. The records of a failed batch are gone. -/
def flush (b : Batch) (s : σ) : Except QueueError Nat × σ :=
  match BatchStore.persist b.records s with
  | (.ok (), s) => (.ok b.records.length, s)
  | (.error e, s) => (.error (.flush b.subscription b.records.length e), s)

/-- Hands over every batch, also after failures, and keeps the first error. -/
def flushAll : List Batch → σ → Except QueueError Unit × σ
  | [], s => (.ok (), s)
  | b :: rest, s =>
    match flush b s with
    | (.ok _, s) => flushAll rest s
    | (.error e, s) => (.error e, (flushAll rest s).2)

/-- Accepts a record, and stores the batch that it completes. -/
def enqueue (id : SubscriptionId) (r : Record) (q : Queue) (s : σ) :
    Except QueueError Outcome × Queue × σ :=
  match q.add id r with
  | (.refused, q) => (.error .closed, q, s)
  | (.buffered n, q) => (.ok (.buffered n), q, s)
  | (.full b, q) =>
    let (result, s) := flush b s
    (result.map .flushed, q, s)

/-- Stores what is buffered for a subscription and counts the records. -/
def release (id : SubscriptionId) (q : Queue) (s : σ) : Except QueueError Nat × Queue × σ :=
  match q.remove id with
  | (none, q) => (.ok 0, q, s)
  | (some b, q) =>
    let (result, s) := flush b s
    (result, q, s)

/-- Closes the queue and stores every buffer; the first error is kept. -/
def drain (q : Queue) (s : σ) : Except QueueError Unit × Queue × σ :=
  let (batches, q) := q.close
  let (result, s) := flushAll batches s
  (result, q, s)

end Queue

end EventIntake
