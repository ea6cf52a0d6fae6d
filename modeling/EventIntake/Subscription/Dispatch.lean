import EventIntake.Queue.Flush
import EventIntake.Subscription.Registry

/-! From a raw push to the handler of its subscription. -/
namespace EventIntake.Subscription
open Event

/-- A handler fails when the queue refuses or loses its record. -/
structure HandlerError where
  source : QueueError
  deriving DecidableEq, Repr

def HandlerError.message (e : HandlerError) : String := "Queue error: " ++ e.source.message

/-- Why a push was given up. -/
inductive DispatchError
  | decode (subscription : SubscriptionId) (source : DecodeError)
  | notification (source : DecodeError)
  deriving DecidableEq, Repr

def DispatchError.message : DispatchError → String
  | decode subscription source =>
    "Subscription " ++ toString subscription.toNat ++ ": " ++ source.message
  | notification source => "Malformed notification: " ++ source.message

/-- The outcome of a push: the category it was routed to, the handler calls that succeeded, the
entries with unknown tags and the handler calls that failed. -/
structure Report where
  category : Option Category := none
  handled : Nat := 0
  unknownTags : Nat := 0
  handlerFailures : Nat := 0
  deriving DecidableEq, Repr

def Report.routed (r : Report) : Bool := r.category.isSome

/-- What a handler does with an event, in a world of type `ω`. -/
abbrev Handling (η ω : Type) :=
  η → SubscriptionId → Meta → Payload → ω → Except HandlerError Unit × ω

variable {η ω : Type}

/-- Hands the entries of an envelope over in order. Unknown tags are counted; an entry that does not
decode ends the push. -/
def deliver (handle : Handling η ω) (handler : η) (id : SubscriptionId) (info : Meta) :
    List (String × String) → Report → ω → Except DispatchError Report × ω
  | [], report, w => (.ok report, w)
  | (tag, raw) :: rest, report, w =>
    match decodeTagged tag raw with
    | .error (.unknownTag _) =>
      deliver handle handler id info rest { report with unknownTags := report.unknownTags + 1 } w
    | .error e => (.error (.decode id e), w)
    | .ok p =>
      match handle handler id info p w with
      | (.ok (), w) =>
        deliver handle handler id info rest { report with handled := report.handled + 1 } w
      | (.error _, w) =>
        deliver handle handler id info rest
          { report with handlerFailures := report.handlerFailures + 1 } w

/-- Decodes the envelope of a push and hands its entries to the handler of the subscription, if there
is one. -/
def dispatch (handle : Handling η ω) (registry : Registry η) (id : SubscriptionId) (raw : String)
    (w : ω) : Except DispatchError Report × ω :=
  match Envelope.decode raw with
  | .error e => (.error (.decode id e), w)
  | .ok envelope =>
    match registry.lookup id with
    | none => (.ok {}, w)
    | some route =>
      deliver handle route.handler id envelope.info envelope.payloads
        { category := some route.category } w

/-- Dispatches the envelope that a notification carries. -/
def notify (handle : Handling η ω) (registry : Registry η) (raw : String) (w : ω) :
    Except DispatchError Report × ω :=
  match Notification.decode raw with
  | .error e => (.error (.notification e), w)
  | .ok n => dispatch handle registry n.subscription n.result w

end EventIntake.Subscription
