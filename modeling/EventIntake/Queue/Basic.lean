import EventIntake.Event.Envelope
import EventIntake.Record.Row
import EventIntake.Sorted

/-! Records waiting to be stored, by subscription. -/
namespace EventIntake
open Event

/-- The records of a subscription that are stored together. -/
structure Batch where
  subscription : SubscriptionId
  records : List Record
  deriving DecidableEq, Repr

/-- Buffers by subscription, each shorter than the threshold and not empty. -/
structure Queue where
  threshold : Nat
  threshold_pos : 0 < threshold
  buffers : List (SubscriptionId × List Record)
  closed : Bool
  deriving Repr

namespace Queue

/-- An empty queue. A threshold of zero counts as one. -/
def new (threshold : Nat) : Queue := ⟨max threshold 1, by omega, [], false⟩

/-- The buffered records of a subscription, oldest first. -/
def pending (q : Queue) (id : SubscriptionId) : List Record :=
  (Sorted.find? id q.buffers).getD []

/-- What became of a record. -/
inductive Added
  | refused
  | buffered (pending : Nat)
  | full (batch : Batch)
  deriving DecidableEq, Repr

/-- Appends a record to the buffer of its subscription. A buffer that reaches the threshold leaves the
queue as a batch. -/
def add (id : SubscriptionId) (r : Record) (q : Queue) : Added × Queue :=
  if q.closed then (.refused, q)
  else
    let records := q.pending id ++ [r]
    if records.length < q.threshold then
      (.buffered records.length, { q with buffers := Sorted.insert id records q.buffers })
    else (.full ⟨id, records⟩, { q with buffers := Sorted.erase id q.buffers })

/-- Takes the buffer of a subscription out of the queue. -/
def remove (id : SubscriptionId) (q : Queue) : Option Batch × Queue :=
  ((Sorted.find? id q.buffers).map fun records => ⟨id, records⟩,
    { q with buffers := Sorted.erase id q.buffers })

/-- Closes the queue and takes out every buffer, ascending by subscription. -/
def close (q : Queue) : List Batch × Queue :=
  (q.buffers.map fun b => ⟨b.1, b.2⟩, { q with buffers := [], closed := true })

end Queue

end EventIntake
