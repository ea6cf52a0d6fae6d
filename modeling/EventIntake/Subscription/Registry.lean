import EventIntake.Event.Envelope
import EventIntake.Sorted

/-! The routes from subscriptions to handlers. -/
namespace EventIntake.Subscription
open Event

inductive RegistryError
  | alreadyRegistered (id : SubscriptionId) (category : Category)
  | closed
  deriving DecidableEq, Repr

def RegistryError.message : RegistryError → String
  | alreadyRegistered id category =>
    "Subscription " ++ toString id.toNat ++ " already registered for " ++ category.name
  | closed => "Registry is closed"

/-- The category of a subscription and what handles its events. -/
structure Route (η : Type) where
  category : Category
  handler : η
  deriving DecidableEq, Repr

/-- Routes by subscription. A closed registry keeps its routes but leads nowhere. -/
structure Registry (η : Type) where
  routes : List (SubscriptionId × Route η) := []
  closed : Bool := false
  deriving DecidableEq, Repr

namespace Registry

variable {η : Type}

/-- Adds a route. A present one is never replaced. -/
def register (id : SubscriptionId) (category : Category) (handler : η) (r : Registry η) :
    Except RegistryError (Registry η) :=
  if r.closed then .error .closed
  else match Sorted.find? id r.routes with
    | some present => .error (.alreadyRegistered id present.category)
    | none => .ok { r with routes := Sorted.insert id ⟨category, handler⟩ r.routes }

/-- The route of a subscription while the registry is open. -/
def lookup (id : SubscriptionId) (r : Registry η) : Option (Route η) :=
  if r.closed then none else Sorted.find? id r.routes

/-- Removes a route and tells its category. -/
def remove (id : SubscriptionId) (r : Registry η) : Option Category × Registry η :=
  ((Sorted.find? id r.routes).map Route.category, { r with routes := Sorted.erase id r.routes })

/-- Removes the route of a subscription if it is of the given category. -/
def removeFor (id : SubscriptionId) (category : Category) (r : Registry η) : Bool × Registry η :=
  match Sorted.find? id r.routes with
  | some present =>
    if present.category = category then (true, { r with routes := Sorted.erase id r.routes })
    else (false, r)
  | none => (false, r)

def close (r : Registry η) : Registry η := { r with closed := true }

def size (r : Registry η) : Nat := r.routes.length

end Registry

end EventIntake.Subscription
