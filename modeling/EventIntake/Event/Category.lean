/-! The kinds of events that a subscription can be opened for. -/
namespace EventIntake.Event

inductive Category
  | moveEvent
  | publish
  | coinBalanceChange
  | transferObject
  | newObject
  | deleteObject
  | mutateObject
  | epochChange
  | checkpoint
  deriving DecidableEq, Repr

namespace Category

/-- Every category in ascending order. -/
def all : List Category :=
  [moveEvent, publish, coinBalanceChange, transferObject, newObject, deleteObject, mutateObject,
    epochChange, checkpoint]

/-- The place in the order of categories. -/
def index : Category → Nat
  | moveEvent => 0
  | publish => 1
  | coinBalanceChange => 2
  | transferObject => 3
  | newObject => 4
  | deleteObject => 5
  | mutateObject => 6
  | epochChange => 7
  | checkpoint => 8

instance : LT Category := ⟨fun a b => a.index < b.index⟩
instance : DecidableLT Category := fun a b => inferInstanceAs (Decidable (a.index < b.index))

/-- The identifier in settings and filters. -/
def name : Category → String
  | moveEvent => "MoveEvent"
  | publish => "Publish"
  | coinBalanceChange => "CoinBalanceChange"
  | transferObject => "TransferObject"
  | newObject => "NewObject"
  | deleteObject => "DeleteObject"
  | mutateObject => "MutateObject"
  | epochChange => "EpochChange"
  | checkpoint => "Checkpoint"

/-- The key of a payload within an envelope: the name with a small first letter. -/
def tag : Category → String
  | moveEvent => "moveEvent"
  | publish => "publish"
  | coinBalanceChange => "coinBalanceChange"
  | transferObject => "transferObject"
  | newObject => "newObject"
  | deleteObject => "deleteObject"
  | mutateObject => "mutateObject"
  | epochChange => "epochChange"
  | checkpoint => "checkpoint"

def description : Category → String
  | moveEvent => "Move-specific event"
  | publish => "Module published"
  | coinBalanceChange => "Coin balance changing event"
  | transferObject => "Transfer objects to new address / wrap in another object"
  | newObject => "New object creation"
  | deleteObject => "Delete object"
  | mutateObject => "Mutate object"
  | epochChange => "Epoch change"
  | checkpoint => "New checkpoint"

/-- Every category under its name. -/
def byName : List (String × Category) := all.map fun c => (c.name, c)

def ofTag? (tag : String) : Option Category := all.find? fun c => c.tag == tag

/-- A name that no category has. -/
structure Unknown where
  name : String
  deriving DecidableEq, Repr

def Unknown.message (e : Unknown) : String := "Unknown event category: " ++ e.name

def ofName (name : String) : Except Unknown Category :=
  match byName.lookup name with
  | some c => .ok c
  | none => .error ⟨name⟩

end Category

end EventIntake.Event
