import EventIntake.Event.Envelope

/-! The node that subscriptions are opened at. -/
namespace EventIntake.Subscription
open Event

inductive TransportError
  | connection (reason : String)
  | timeout
  | rejected (reason : String)
  deriving DecidableEq, Repr

namespace TransportError

def message : TransportError → String
  | connection reason => "Connection error: " ++ reason
  | timeout => "Request timed out"
  | rejected reason => "Request rejected by node: " ++ reason

/-- Whether the same request may succeed later. -/
def retryable : TransportError → Bool
  | connection _ | timeout => true
  | rejected _ => false

end TransportError

/-- The requests to a node: to open a subscription, and to close one, which the node may leave
unconfirmed. -/
class Node (τ : Type) where
  subscribe : Category → τ → Except TransportError SubscriptionId × τ
  unsubscribe : SubscriptionId → τ → Except TransportError Bool × τ

/-- A node that hands out ascending ids and fails on demand. -/
structure ScriptedNode where
  nextId : SubscriptionId := 1
  /-- Requests to subscribe that will lose their connection. -/
  transientFailures : Nat := 0
  rejecting : Bool := false
  unsubscribeFailing : Bool := false
  confirming : Bool := true
  /-- The categories subscribed to, oldest first. -/
  subscribed : List Category := []
  /-- The ids asked to be closed, oldest first. -/
  unsubscribed : List SubscriptionId := []
  deriving DecidableEq, Repr

namespace ScriptedNode

/-- Ids wrap around after the greatest. -/
def subscribe (c : Category) (n : ScriptedNode) : Except TransportError SubscriptionId × ScriptedNode :=
  if n.rejecting then (.error (.rejected ("subscription to " ++ c.name ++ " refused")), n)
  else match n.transientFailures with
    | k + 1 => (.error (.connection "connection reset"), { n with transientFailures := k })
    | 0 => (.ok n.nextId, { n with subscribed := n.subscribed ++ [c], nextId := n.nextId + 1 })

def unsubscribe (id : SubscriptionId) (n : ScriptedNode) : Except TransportError Bool × ScriptedNode :=
  let asked := { n with unsubscribed := n.unsubscribed ++ [id] }
  if n.unsubscribeFailing then (.error .timeout, asked) else (.ok n.confirming, asked)

instance : Node ScriptedNode := ⟨subscribe, unsubscribe⟩

end ScriptedNode

end EventIntake.Subscription
