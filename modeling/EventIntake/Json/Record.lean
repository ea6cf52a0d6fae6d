import EventIntake.Json.Codec

/-! Structures with named fields, written as an object and read from an object or from a list of the
fields in order. -/
namespace EventIntake.Json

/-- A field of a structure. -/
structure Field where
  name : String
  Carrier : Type
  codec : Codec Carrier
  /-- What an absent field stands for; none if it is required. -/
  absent : Option Carrier
  /-- Values that are not written. -/
  omits : Carrier → Bool

namespace Field

def required {α : Type} (name : String) (c : Codec α) : Field := ⟨name, α, c, none, fun _ => false⟩

def defaulted {α : Type} (name : String) (c : Codec α) (absent : α) : Field :=
  ⟨name, α, c, some absent, fun _ => false⟩

end Field

/-- A value for every field. -/
def Values : List Field → Type
  | [] => Unit
  | f :: fs => f.Carrier × Values fs

/-- The values met so far. -/
def Slots : List Field → Type
  | [] => Unit
  | f :: fs => Option f.Carrier × Slots fs

namespace Slots

def empty : (fs : List Field) → Slots fs
  | [] => ()
  | _ :: fs => (none, empty fs)

/-- What a key means to a structure whose fields are partly filled. -/
inductive Lookup (fs : List Field)
  | unknown
  | taken
  | free (fill : Nat → Reader (Slots fs))

def lookup : (fs : List Field) → Slots fs → String → Lookup fs
  | [], _, _ => .unknown
  | f :: fs, (slot, slots), key =>
    if key = f.name then
      if slot.isSome then .taken
      else .free fun depth cs => do
        let (a, cs) ← f.codec.read depth cs
        .ok ((some a, slots), cs)
    else match lookup fs slots key with
      | .unknown => .unknown
      | .taken => .taken
      | .free fill => .free fun depth cs => do
        let (slots, cs) ← fill depth cs
        .ok ((slot, slots), cs)

/-- Fills in what absent fields stand for. -/
def complete : (fs : List Field) → Slots fs → Except Fault (Values fs)
  | [], _ => .ok ()
  | f :: fs, (slot, slots) =>
    match slot.or f.absent with
    | none => .error (.rejected ("missing field `" ++ f.name ++ "`"))
    | some a => do .ok (a, ← complete fs slots)

/-- Reads one member. A key that comes again is refused before its value; an unknown one may hold any
JSON. -/
def member (fs : List Field) (depth : Nat) (slots : Slots fs) (key : String) : Reader (Slots fs) :=
  fun cs =>
    match lookup fs slots key with
    | .unknown => do
      let cs ← colon cs
      .ok (slots, ← Raw.skip cs)
    | .taken => .error (.rejected ("duplicate field `" ++ key ++ "`"))
    | .free fill => do fill depth (← colon cs)

end Slots

namespace Values

/-- Reads the fields in order from the elements of a list; `first` before any element, `index` the
place of the next field, `size` the wanted length in words. -/
def fromItems (size : String) (depth : Nat) :
    (fs : List Field) → (first : Bool) → (index : Nat) → Reader (Values fs)
  | [], _, _, cs => .ok ((), cs)
  | f :: fs, first, index, cs => do
    let (more, cs) ← nextItem first cs
    if more then
      let (a, cs) ← f.codec.read depth cs
      let (rest, cs) ← fromItems size depth fs false (index + 1) cs
      .ok ((a, rest), cs)
    else match f.absent with
      | none => .error (.rejected ("invalid length " ++ toString index ++ ", expected " ++ size))
      | some a => do
        let (rest, cs) ← fromItems size depth fs first (index + 1) cs
        .ok ((a, rest), cs)

/-- The members to be written. -/
def members : (fs : List Field) → Values fs → List (String × List Char)
  | [], _ => []
  | f :: fs, (a, rest) =>
    if f.omits a then members fs rest else (f.name, f.codec.write a) :: members fs rest

end Values

namespace Codec

/-- The wanted length of a list that holds a structure. -/
def sizeOf (name : String) (fs : List Field) : String :=
  "struct " ++ name ++ " with " ++ toString fs.length ++
    if fs.length = 1 then " element" else " elements"

/-- A structure with the given fields. -/
def record {α : Type} (name : String) (fs : List Field) (of : Values fs → α) (fields : α → Values fs) :
    Codec α where
  read depth := afterBlank fun
    | '[' :: rest => nested depth fun depth => do
      let (values, rest) ← Values.fromItems (sizeOf name fs) depth fs true 0 rest
      .ok (of values, ← endList rest)
    | '{' :: rest => nested depth fun depth => do
      let (slots, rest) ←
        membersUpTo (Slots.member fs depth) (rest.length + 1) true (Slots.empty fs) rest
      let values ← Slots.complete fs slots
      .ok (of values, ← endObject rest)
    | cs => .error (mismatch ("struct " ++ name) cs)
  write a := writeMembers (Values.members fs (fields a))

end Codec

end EventIntake.Json
