import EventIntake.Config.Value
import EventIntake.Decimal.Reading

/-! Settings in environment variables. -/
namespace EventIntake.Config.Environment
open Decimal

/-- What the names of variables with settings begin with, in any case. -/
def opening : List Char := "suiwatch__".toList

/-- A point for every two underlines. -/
def pointed : List Char → List Char
  | '_' :: '_' :: rest => '.' :: pointed rest
  | c :: rest => c :: pointed rest
  | [] => []

/-- The key that a variable sets. -/
def key? (name : String) : Option String :=
  let cs := name.toList.map Char.toLower
  if opening.isPrefixOf cs then some (String.ofList (pointed (cs.drop opening.length))) else none

/-- The setting that a text spells: a truth value in any case, a whole number that fits 64 bits, another
number, or else the text. -/
def guess (s : String) : Value :=
  let word := lower s.toList
  if word = "true".toList then .bool true
  else if word = "false".toList then .bool false
  else match int64? 10 decimalDigit? s.toList with
    | some n => .int n
    | none =>
      match extended? s.toList with
      | some x => .real x
      | none => .text s

/-- The settings among the variables of an environment. Each key is there once, with the value of the last variable that
sets it. There is no order in which they apply: the keys are ascending here, `Sources.Loads` takes them in every order. -/
def settings (env : List (String × String)) : List (String × Value) :=
  env.foldl (fun kept v => (key? v.1).elim kept fun key => Sorted.insert key (guess v.2) kept) []

end EventIntake.Config.Environment
