import EventIntake.Record.OfEvent
import EventIntake.Rules.Balance
import EventIntake.Subscription.Dispatch

/-! What happens to an event that reached its handler. -/
namespace EventIntake
open Event

/-- Stores the events of one category. -/
structure PersistingHandler where
  category : Category
  deriving DecidableEq, Repr

/-- The queue before the store, and the rules that look at events first, if there are any. -/
structure Intake (σ : Type) where
  queue : Queue
  store : σ
  rules : Option Rules.Book := none

namespace Intake

variable {σ : Type} [BatchStore σ]

/-- Shows an event to the rules. Their failures have no effect on storing it. -/
def observe (info : Meta) (p : Payload) (w : Intake σ) : Intake σ :=
  { w with rules := w.rules.map fun book => (book.observe info p).2 }

def enqueue (id : SubscriptionId) (r : Record) (w : Intake σ) :
    Except QueueError Queue.Outcome × Intake σ :=
  let (result, queue, store) := w.queue.enqueue id r w.store
  (result, { w with queue := queue, store := store })

def release (id : SubscriptionId) (w : Intake σ) : Except QueueError Nat × Intake σ :=
  let (result, queue, store) := w.queue.release id w.store
  (result, { w with queue := queue, store := store })

def drain (w : Intake σ) : Except QueueError Unit × Intake σ :=
  let (result, queue, store) := w.queue.drain w.store
  (result, { w with queue := queue, store := store })

/-- Stores an event of the handler's category by way of the queue. Events of other categories may come
in the same push and are passed over. -/
def handle (h : PersistingHandler) (id : SubscriptionId) (info : Meta) (p : Payload) (w : Intake σ) :
    Except Subscription.HandlerError Unit × Intake σ :=
  if p.category = h.category then
    match (w.observe info p).enqueue id (Record.ofEvent info p) with
    | (.ok _, w) => (.ok (), w)
    | (.error e, w) => (.error ⟨e⟩, w)
  else (.ok (), w)

end Intake

end EventIntake
