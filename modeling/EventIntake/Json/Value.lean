import EventIntake.Json.Items
import EventIntake.Sorted

/-! JSON values, their reader and their compact text. -/
namespace EventIntake.Json
open Decimal

/-- A JSON value; the members of an object in the order in which they are kept. -/
inductive Value
  | null
  | bool (b : Bool)
  | number (n : Number)
  | text (s : String)
  | list (items : List Value)
  | object (members : List (String × Value))
  deriving Repr

/-- How deeply lists and objects may nest in one document. -/
def maxDepth : Nat := 127

/-- An object with this key first stands for the value that the text under the key spells. -/
def embeddedKey : String := "$serde_json::private::RawValue"

namespace Value

/-- How the members of an object are kept. -/
inductive Form
  /-- All of them, in the order of the text. -/
  | asWritten
  /-- Sorted by key, of equal keys the last, with embedded texts read by `embedded`. -/
  | sorted (embedded : String → Except Fault Value)

/-- The embedded reader, if the first key calls for it. -/
def Form.embedded? (form : Form) (key : String) : Option (String → Except Fault Value) :=
  match form with
  | .asWritten => none
  | .sorted embedded => if key = embeddedKey then some embedded else none

/-- Adds a member to those kept so far, which are held last first if they are kept as written. -/
def Form.add (form : Form) (name : String) (v : Value) (kept : List (String × Value)) :
    List (String × Value) :=
  match form with
  | .asWritten => (name, v) :: kept
  | .sorted _ => Sorted.insert name v kept

def Form.object (form : Form) (kept : List (String × Value)) : Value :=
  match form with
  | .asWritten => .object kept.reverse
  | .sorted _ => .object kept

/-- The text under the embedded key. -/
def embeddedText (cs : List Char) : Except Fault (String × List Char) :=
  match skipBlank cs with
  | [] => .error (.ended .value)
  | '"' :: rest => Json.text rest
  | rest => .error (mismatch "raw value" rest)

/-- Reads a value with at most `depth` open brackets at a time. -/
def read (form : Form) (depth : Nat) : Reader Value := fun cs =>
  match skipBlank cs with
  | [] => .error (.ended .value)
  | c :: rest =>
    if c = 'n' then (fun rest => (.null, rest)) <$> word ['u', 'l', 'l'] rest
    else if c = 't' then (fun rest => (.bool true, rest)) <$> word ['r', 'u', 'e'] rest
    else if c = 'f' then (fun rest => (.bool false, rest)) <$> word ['a', 'l', 's', 'e'] rest
    else if c = '"' then (fun s => (.text s.1, s.2)) <$> Json.text rest
    else if c = '-' ∨ isDigit c then (fun n => (.number n.1, n.2)) <$> Json.number (c :: rest)
    else if c = '[' then
      match depth with
      | 0 => .error .tooDeep
      | depth + 1 => do
        let (done, rest) ← items (fun done cs => do
          let (v, cs) ← read form depth cs
          .ok (v :: done, cs)) [] rest
        .ok (.list done.reverse, rest)
    else if c = '{' then
      match depth with
      | 0 => .error .tooDeep
      | depth + 1 => do
        let member (kept : List (String × Value)) (name : String) : Reader (List (String × Value)) :=
          fun cs => do
            let cs ← colon cs
            let (v, cs) ← read form depth cs
            .ok (form.add name v kept, cs)
        let (name, rest) ← nextKey true rest
        match name with
        | none => .ok (.object [], ← endObject rest)
        | some name =>
          match form.embedded? name with
          | some embedded =>
            let rest ← colon rest
            let (spelled, rest) ← embeddedText rest
            let v ← embedded spelled
            .ok (v, ← endObject rest)
          | none =>
            let (kept, rest) ← member [] name rest
            let (kept, rest) ← membersUpTo member (rest.length + 1) false kept rest
            .ok (form.object kept, ← endObject rest)
    else .error .expectedValue

/-- Reads a document of one value, texts embedded up to `fuel` deep. A fault in an embedded text keeps
its full wording and counts as a wrong shape. -/
def documentUpTo : Nat → String → Except Fault Value
  | 0, _ => .error (.ended .value)
  | fuel + 1, s =>
    match finish Value (read (.sorted (documentUpTo fuel)) maxDepth) s.toList with
    | .ok v => .ok v
    | .error fault => .error (.rejected fault.message)

/-- The value that an embedded text spells. An embedded text is shorter than the one around it. -/
def embedded (s : String) : Except Fault Value := documentUpTo (s.length + 1) s

mutual
/-- Compact text. -/
def write : Value → List Char
  | .null => ['n', 'u', 'l', 'l']
  | .bool b => if b then ['t', 'r', 'u', 'e'] else ['f', 'a', 'l', 's', 'e']
  | .number n => n.write
  | .text s => writeText s
  | .list vs => writeItems (writeList vs)
  | .object ms => writeMembers (writeObject ms)

def writeList : List Value → List (List Char)
  | [] => []
  | v :: vs => v.write :: writeList vs

def writeObject : List (String × Value) → List (String × List Char)
  | [] => []
  | (name, v) :: ms => (name, v.write) :: writeObject ms
end

end Value

end EventIntake.Json
