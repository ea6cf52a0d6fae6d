import EventIntake.Intake
import EventIntake.Subscription.Node

/-! Opening and closing the subscription of each category. A subscription is routed before it is
reported, and what is buffered for it is stored when it ends. -/
namespace EventIntake.Subscription
open Event

inductive LifecycleError
  | transport (category : Category) (source : TransportError)
  /-- The node opened the subscription but its id is in use. The subscription stays open. -/
  | registration (category : Category) (id : SubscriptionId) (source : RegistryError)
  | unsubscribeRejected (category : Category) (id : SubscriptionId)
  /-- The subscription is closed, but what was buffered for it is lost. -/
  | flush (category : Category) (id : SubscriptionId) (source : QueueError)
  | shutDown
  deriving DecidableEq, Repr

namespace LifecycleError

def message : LifecycleError → String
  | transport category source => "Transport error for " ++ category.name ++ ": " ++ source.message
  | registration category id source =>
    "Subscription " ++ toString id.toNat ++ " for " ++ category.name ++
      " could not be registered: " ++ source.message
  | unsubscribeRejected category id =>
    "Node did not confirm unsubscribe of " ++ toString id.toNat ++ " for " ++ category.name
  | flush category id source =>
    "Flush after unsubscribing " ++ toString id.toNat ++ " for " ++ category.name ++ " failed: " ++
      source.message
  | shutDown => "Subscription manager is shut down"

def retryable : LifecycleError → Bool
  | transport _ source => source.retryable
  | _ => false

end LifecycleError

/-- What went wrong at a shutdown: the categories that could not be unsubscribed, and the first buffer
that was lost. -/
structure ShutdownError where
  unsubscribe : List LifecycleError
  drain : Option QueueError
  deriving DecidableEq, Repr

def ShutdownError.message (e : ShutdownError) : String :=
  "Shutdown incomplete: " ++ toString e.unsubscribe.length ++
    " unsubscribe failure(s), drain error: " ++ (e.drain.map QueueError.message).getD "none"

/-- The state of a category. -/
inductive State
  | unsubscribed
  | subscribing
  | subscribed (id : SubscriptionId)
  | unsubscribing (id : SubscriptionId)
  deriving DecidableEq, Repr

/-- Subscriptions at a node, their routes, and the way of their events into a store. Categories without
a state are unsubscribed. -/
structure Manager (σ τ : Type) where
  node : τ
  intake : Intake σ
  registry : Registry PersistingHandler := {}
  states : List (Category × State) := []
  shutDown : Bool := false

namespace Manager

variable {σ τ : Type} [BatchStore σ] [Node τ]

def state (c : Category) (m : Manager σ τ) : State := (Sorted.find? c m.states).getD .unsubscribed

def setState (c : Category) (s : State) (m : Manager σ τ) : Manager σ τ :=
  { m with states := Sorted.insert c s m.states }

def clearState (c : Category) (m : Manager σ τ) : Manager σ τ :=
  { m with states := Sorted.erase c m.states }

/-- The subscribed categories in ascending order. -/
def active (m : Manager σ τ) : List (Category × SubscriptionId) :=
  m.states.filterMap fun (c, s) => match s with
    | .subscribed id => some (c, id)
    | _ => none

/-- Opens the subscription of a category; an open one is kept. -/
def subscribe (c : Category) (m : Manager σ τ) : Except LifecycleError SubscriptionId × Manager σ τ :=
  if m.shutDown then (.error .shutDown, m)
  else match m.state c with
    | .subscribed id => (.ok id, m)
    | _ =>
      let m := m.setState c .subscribing
      match Node.subscribe c m.node with
      | (.error e, node) => (.error (.transport c e), { m with node := node }.clearState c)
      | (.ok id, node) =>
        let m := { m with node := node }.setState c (.subscribed id)
        match m.registry.register id c ⟨c⟩ with
        | .error e => (.error (.registration c id e), m)
        | .ok registry => (.ok id, { m with registry := registry })

/-- Tries again after failures that may pass, at most `retries` times. -/
def subscribeWithRetry (c : Category) :
    (retries : Nat) → Manager σ τ → Except LifecycleError SubscriptionId × Manager σ τ
  | 0, m => m.subscribe c
  | retries + 1, m =>
    match m.subscribe c with
    | (.error e, m) => if e.retryable then subscribeWithRetry c retries m else (.error e, m)
    | (.ok id, m) => (.ok id, m)

/-- Opens subscriptions in order, up to the first that fails. -/
def subscribeAll (retries : Nat) : List Category → Manager σ τ →
    Except LifecycleError (List (Category × SubscriptionId)) × Manager σ τ
  | [], m => (.ok [], m)
  | c :: rest, m =>
    match m.subscribeWithRetry c retries with
    | (.error e, m) => (.error e, m)
    | (.ok id, m) =>
      let (result, m) := subscribeAll retries rest m
      (result.map ((c, id) :: ·), m)

/-- Closes the subscription of a category. Its route goes, and its buffer is stored, only when the node
confirms; a route that leads to another category stays. -/
def unsubscribe (c : Category) (m : Manager σ τ) : Except LifecycleError Unit × Manager σ τ :=
  match m.state c with
  | .subscribed id =>
    let m := m.setState c (.unsubscribing id)
    match Node.unsubscribe id m.node with
    | (.ok true, node) =>
      let m := { m with node := node }.clearState c
      match m.registry.removeFor id c with
      | (false, registry) => (.ok (), { m with registry := registry })
      | (true, registry) =>
        let (result, intake) := m.intake.release id
        let m := { m with registry := registry, intake := intake }
        match result with
        | .ok _ => (.ok (), m)
        | .error e => (.error (.flush c id e), m)
    | (.ok false, node) =>
      (.error (.unsubscribeRejected c id), { m with node := node }.setState c (.subscribed id))
    | (.error e, node) =>
      (.error (.transport c e), { m with node := node }.setState c (.subscribed id))
  | _ => (.ok (), m)

/-- Closes subscriptions in order, also after failures. -/
def unsubscribeAll : List Category → Manager σ τ → List LifecycleError × Manager σ τ
  | [], m => ([], m)
  | c :: rest, m =>
    match m.unsubscribe c with
    | (.ok (), m) => unsubscribeAll rest m
    | (.error e, m) =>
      let (errors, m) := unsubscribeAll rest m
      (e :: errors, m)

/-- Closes every subscription, stops routing and stores what is buffered. Only the first call does
anything. -/
def shutdown (m : Manager σ τ) : Except ShutdownError Unit × Manager σ τ :=
  if m.shutDown then (.ok (), m)
  else
    let (errors, m) := { m with shutDown := true }.unsubscribeAll (m.states.map Prod.fst)
    let (drained, intake) := m.intake.drain
    let m := { m with registry := m.registry.close, intake := intake }
    match errors, drained with
    | [], .ok () => (.ok (), m)
    | errors, .ok () => (.error ⟨errors, none⟩, m)
    | errors, .error e => (.error ⟨errors, some e⟩, m)

/-- Routes a push by the registry to its handler. -/
def push (id : SubscriptionId) (raw : String) (m : Manager σ τ) :
    Except DispatchError Report × Manager σ τ :=
  let (result, intake) := dispatch Intake.handle m.registry id raw m.intake
  (result, { m with intake := intake })

/-- Routes the push that a notification carries. -/
def notify (raw : String) (m : Manager σ τ) : Except DispatchError Report × Manager σ τ :=
  let (result, intake) := Subscription.notify Intake.handle m.registry raw m.intake
  (result, { m with intake := intake })

end Manager

end EventIntake.Subscription
