import EventIntake.Config.Value
import EventIntake.Decimal.Reading
import EventIntake.Text.Hex

/-! YAML nodes, and the settings they stand for. -/
namespace EventIntake.Config.Yaml
open Decimal

/-- A scalar; a real number keeps its spelling. -/
inductive Scalar
  | null
  | bool (b : Bool)
  | int (n : Int64)
  | real (spelling : String)
  | text (s : String)
  deriving DecidableEq, Repr

inductive Node
  | scalar (s : Scalar)
  | list (items : List Node)
  | table (entries : List (Scalar × Node))
  deriving Repr

namespace Scalar

def octalDigit? (c : Char) : Option Nat := if '0' ≤ c ∧ c ≤ '7' then some (c.toNat - 48) else none

/-- A whole number in hexadecimal, octal or decimal digits. -/
def int? (s : String) : Option Int64 :=
  match s.toList with
  | '0' :: 'x' :: rest => int64? 16 Text.Hex.digit? rest
  | '0' :: 'o' :: rest => int64? 8 octalDigit? rest
  | '+' :: rest => int64? 10 decimalDigit? rest
  | cs => int64? 10 decimalDigit? cs

/-- The words for infinity and no number. -/
def words : List String :=
  [".inf", ".Inf", ".INF", "+.inf", "+.Inf", "+.INF", "-.inf", "-.Inf", "-.INF", ".nan", ".NaN", ".NAN"]

def isReal (s : String) : Bool :=
  words.contains s || (s.toList.any isDigit && (extended? s.toList).isSome)

/-- The scalar that unquoted text spells. -/
def ofPlain (s : String) : Scalar :=
  if s = "" ∨ s = "~" ∨ s = "null" then .null
  else if s = "true" then .bool true
  else if s = "false" then .bool false
  else match int? s with
    | some n => .int n
    | none => if isReal s then .real s else .text s

/-- The setting of a scalar. A real number has one only if it is spelled in digits. -/
def value? : Scalar → Option Value
  | .null => some .null
  | .bool b => some (.bool b)
  | .int n => some (.int n)
  | .real spelling => Value.real <$> extended? spelling.toList
  | .text s => some (.text s)

end Scalar

namespace Node

mutual
/-- The setting of a node. Entries whose key is no text are passed over. -/
def value? : Node → Option Value
  | .scalar s => s.value?
  | .list items => Value.list <$> values? items
  | .table entries => Value.table <$> entries? [] entries

def values? : List Node → Option (List Value)
  | [] => some []
  | n :: rest => do some ((← n.value?) :: (← values? rest))

def entries? (done : List (String × Value)) : List (Scalar × Node) → Option (List (String × Value))
  | [] => some done
  | (.text key, n) :: rest => do entries? (Sorted.insert key (← n.value?) done) rest
  | _ :: rest => entries? done rest
end

end Node

end EventIntake.Config.Yaml
