import EventIntake.Event.Address
import EventIntake.Json.Codec

/-! Owners of objects. -/
namespace EventIntake.Event
open Json

/-- Owners that have an address of some kind, or share an object from a version on. -/
structure OwnerKind where
  addressOwner : Option String := none
  objectOwner : Option String := none
  singleOwner : Option String := none
  shared : Option UInt64 := none
  deriving DecidableEq, Repr

/-- A well-known kind of owner by name, or the kinds that carry data. -/
inductive Owner
  | named (name : String)
  | owned (kind : OwnerKind)
  deriving DecidableEq, Repr

namespace OwnerKind

/-- The value of a key that comes at most once; `none` if it comes again. -/
def sole? (key : String) (members : List (String × Value)) : Option (Option Value) :=
  match members.filter fun m => m.1 == key with
  | [] => some none
  | [m] => some (some m.2)
  | _ => none

/-- An optional text; absent and null are the same. -/
def text? : Option Value → Option (Option String)
  | none => some none
  | some .null => some none
  | some (.text s) => some (some s)
  | some _ => none

def version? : Option Value → Option UInt64
  | some (.number (.whole n)) =>
    if 0 ≤ n ∧ n < UInt64.size then some (UInt64.ofNat n.toNat) else none
  | _ => none

/-- The version an object is shared from: the sole field of an object or the sole element of a list. -/
def shared? : Option Value → Option (Option UInt64)
  | none => some none
  | some .null => some none
  | some (.object members) => do some (← version? (← sole? "initial_shared_version" members))
  | some (.list [v]) => do some (← version? (some v))
  | some _ => none

/-- Unknown keys are passed over; absent kinds are not set. -/
def ofMembers? (members : List (String × Value)) : Option OwnerKind := do
  some {
    addressOwner := ← text? (← sole? "AddressOwner" members)
    objectOwner := ← text? (← sole? "ObjectOwner" members)
    singleOwner := ← text? (← sole? "SingleOwner" members)
    shared := ← shared? (← sole? "Shared" members) }

/-- At most four elements, in order; absent ones are not set. -/
def ofItems? (items : List Value) : Option OwnerKind := do
  if 4 < items.length then none
  else some {
    addressOwner := ← text? items[0]?
    objectOwner := ← text? items[1]?
    singleOwner := ← text? items[2]?
    shared := ← shared? items[3]? }

/-- The members of the kinds that are set. -/
def members (k : OwnerKind) : List (String × List Char) :=
  let text (name : String) (v : Option String) := v.toList.map fun s => (name, writeText s)
  text "AddressOwner" k.addressOwner ++ text "ObjectOwner" k.objectOwner ++
    text "SingleOwner" k.singleOwner ++
    k.shared.toList.map fun v =>
      ("Shared", writeMembers [("initial_shared_version", Codec.uint64.write v)])

end OwnerKind

namespace Owner

def ofValue? : Value → Option Owner
  | .text s => some (.named s)
  | .object members => .owned <$> OwnerKind.ofMembers? members
  | .list items => .owned <$> OwnerKind.ofItems? items
  | _ => none

/-- Compact text. -/
def write : Owner → List Char
  | .named name => writeText name
  | .owned kind => writeMembers kind.members

/-- An owner is read whole before its form is looked at. -/
def codec : Codec Owner where
  read depth cs := do
    let (v, cs) ← Value.read .asWritten depth cs
    match ofValue? v with
    | some owner => .ok (owner, cs)
    | none => .error (.rejected "data did not match any variant of untagged enum ObjectOwner")
  write := write

/-- The owning address in normal form: of the owning object, else the address, else the single owner. -/
def address : Owner → Option String
  | .named _ => none
  | .owned kind => (kind.objectOwner.or (kind.addressOwner.or kind.singleOwner)).map Address.normalize

/-- The compact text of an owner, empty for none. -/
def text (owner : Option Owner) : String :=
  match owner with
  | some owner => String.ofList owner.write
  | none => ""

end Owner

end EventIntake.Event
