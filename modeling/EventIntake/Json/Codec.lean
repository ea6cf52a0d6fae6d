import EventIntake.Json.Raw
import EventIntake.Json.Value

/-! Reading JSON straight into the types of a program, and writing them. -/
namespace EventIntake.Json
open Decimal

/-- A reader, told how deeply brackets may still nest, and a writer. -/
structure Codec (α : Type) where
  read : Nat → Reader α
  write : α → List Char

namespace Codec

/-- Passes blanks and hands over to `read`, which sees at least one character. -/
def afterBlank {α : Type} (read : Reader α) : Reader α := fun cs =>
  match skipBlank cs with
  | [] => .error (.ended .value)
  | cs => read cs

/-- Opens a bracket, if one more may be open. -/
def nested {α : Type} (depth : Nat) (inside : Nat → Except Fault α) : Except Fault α :=
  match depth with
  | 0 => .error .tooDeep
  | depth + 1 => inside depth

/-- The same wire form for another type. -/
def map {α β : Type} (f : α → β) (back : β → α) (c : Codec α) : Codec β where
  read depth cs := (fun r => (f r.1, r.2)) <$> c.read depth cs
  write b := c.write (back b)

def text : Codec String where
  read _ := afterBlank fun
    | '"' :: rest => Json.text rest
    | cs => .error (mismatch "a string" cs)
  write := writeText

def bool : Codec Bool where
  read _ := afterBlank fun
    | 't' :: rest => (fun rest => (true, rest)) <$> word ['r', 'u', 'e'] rest
    | 'f' :: rest => (fun rest => (false, rest)) <$> word ['a', 'l', 's', 'e'] rest
    | cs => .error (mismatch "a boolean" cs)
  write b := if b then ['t', 'r', 'u', 'e'] else ['f', 'a', 'l', 's', 'e']

/-- Whole numbers from `low` up to `high`. -/
def integer (want : String) (low high : Int) : Codec Int where
  read _ := afterBlank fun cs =>
    match cs with
    | [] => .error (.ended .value)
    | c :: _ =>
      if c = '-' ∨ isDigit c then do
        let (n, rest) ← Json.number cs
        match n with
        | .whole n =>
          if low ≤ n ∧ n ≤ high then .ok (n, rest)
          else .error (.rejected
            ("invalid value: " ++ (Number.whole n).describe ++ ", expected " ++ want))
        | .real _ => .error (.rejected ("invalid type: " ++ n.describe ++ ", expected " ++ want))
      else .error (mismatch want cs)
  write n := (toString n).toList

def int64 : Codec Int64 :=
  (integer "i64" Int64.minValue.toInt Int64.maxValue.toInt).map Int64.ofInt Int64.toInt

def uint64 : Codec UInt64 :=
  (integer "u64" 0 (UInt64.size - 1 : Nat)).map (fun n => UInt64.ofNat n.toNat) fun n => (n.toNat : Int)

def uint32 : Codec UInt32 :=
  (integer "u32" 0 (UInt32.size - 1 : Nat)).map (fun n => UInt32.ofNat n.toNat) fun n => (n.toNat : Int)

/-- A count of things. -/
def count : Codec UInt64 :=
  (integer "usize" 0 (UInt64.size - 1 : Nat)).map (fun n => UInt64.ofNat n.toNat) fun n => (n.toNat : Int)

/-- Null for no value. -/
def optional {α : Type} (c : Codec α) : Codec (Option α) where
  read depth := afterBlank fun
    | 'n' :: rest => (fun rest => (none, rest)) <$> word ['u', 'l', 'l'] rest
    | cs => (fun r => (some r.1, r.2)) <$> c.read depth cs
  write
    | none => ['n', 'u', 'l', 'l']
    | some a => c.write a

def list {α : Type} (c : Codec α) : Codec (List α) where
  read depth := afterBlank fun
    | '[' :: rest => nested depth fun depth => do
      let (done, rest) ← items (fun done cs => do
        let (a, cs) ← c.read depth cs
        .ok (a :: done, cs)) [] rest
      .ok (done.reverse, rest)
    | cs => .error (mismatch "a sequence" cs)
  write as := writeItems (as.map c.write)

/-! ### Named cases -/

/-- The names that would have done. -/
def expectedNames : List String → String
  | [] => "there are no variants"
  | [a] => "expected `" ++ a ++ "`"
  | [a, b] => "expected `" ++ a ++ "` or `" ++ b ++ "`"
  | names => "expected one of " ++ ", ".intercalate (names.map fun n => "`" ++ n ++ "`")

/-- The case of a name. -/
def caseOf {α : Type} (cases : List (String × α)) (name : String) : Except Fault α :=
  match cases.lookup name with
  | some a => .ok a
  | none => .error (.rejected
      ("unknown variant `" ++ name ++ "`, " ++ expectedNames (cases.map Prod.fst)))

/-- The null that a case may carry. -/
def unitValue : Reader Unit := afterBlank fun
  | 'n' :: rest => (fun rest => ((), rest)) <$> word ['u', 'l', 'l'] rest
  | cs => .error (mismatch "unit" cs)

/-- One of some named cases: its name, or an object that holds null under the name. -/
def choice {α : Type} (cases : List (String × α)) (name : α → String) : Codec α where
  read depth := afterBlank fun
    | '"' :: rest => do
      let (chosen, rest) ← Json.text rest
      .ok (← caseOf cases chosen, rest)
    | '{' :: rest => nested depth fun _ => do
      let (chosen, rest) ← afterBlank (fun
        | '"' :: rest => Json.text rest
        | cs => .error (mismatch "variant identifier" cs)) rest
      let a ← caseOf cases chosen
      let rest ← colon rest
      let (_, rest) ← unitValue rest
      match skipBlank rest with
      | [] => .error (.ended .object)
      | '}' :: rest => .ok (a, rest)
      | _ => .error .expectedValue
    | _ => .error .expectedValue
  write a := writeText (name a)

/-! ### Text kept as it is -/

/-- The text of any one value. -/
def raw : Codec String where
  read _ := Raw.read
  write := String.toList

/-- The texts of the members of an object, by key; of equal keys the last. -/
def rawMembers : Codec (List (String × String)) where
  read depth := afterBlank fun
    | '{' :: rest => nested depth fun _ => do
      let (kept, rest) ← membersUpTo (fun kept name cs => do
        let cs ← colon cs
        let (v, cs) ← Raw.read cs
        .ok (Sorted.insert name v kept, cs)) (rest.length + 1) true [] rest
      .ok (kept, ← endObject rest)
    | cs => .error (mismatch "a map" cs)
  write ms := writeMembers (ms.map fun m => (m.1, m.2.toList))

/-- A value of any kind, objects sorted by key. -/
def value : Codec Value where
  read depth := Value.read (.sorted Value.embedded) depth
  write := Value.write

/-- Reads a document and nothing after it. -/
def decode {α : Type} (c : Codec α) (s : String) : Except Fault α :=
  finish α (c.read maxDepth) s.toList

def encode {α : Type} (c : Codec α) (a : α) : String := String.ofList (c.write a)

end Codec

end EventIntake.Json
