import EventIntake.Decimal.Digits
import EventIntake.Decimal.Notation
import EventIntake.Json.Fault
import EventIntake.Text.Quoted

/-! The tokens of JSON: blanks, words, texts and numbers. -/
namespace EventIntake.Json
open Decimal

def isBlank (c : Char) : Bool := c == ' ' || c == '\n' || c == '\t' || c == '\r'

def skipBlank (cs : List Char) : List Char := cs.dropWhile isBlank

/-- Nothing but blanks may follow a document. -/
def finish (α : Type) (read : Reader α) (cs : List Char) : Except Fault α := do
  let (a, rest) ← read cs
  match skipBlank rest with
  | [] => .ok a
  | _ :: _ => .error .trailingText

/-- Reads the given letters. -/
def word : List Char → List Char → Except Fault (List Char)
  | [], rest => .ok rest
  | _ :: _, [] => .error (.ended .value)
  | w :: ws, c :: cs => if c = w then word ws cs else .error .expectedWord

/-! ### Texts -/

/-- The place inside a text: between characters, after a backslash, within the digits of a UTF-16
unit, or between the two units of a pair. -/
inductive Progress
  | plain
  | escaped
  | unit (high : Option Nat) (left value : Nat)
  | paired (high : Nat)
  | pairedMark (high : Nat)
  deriving DecidableEq, Repr

/-- The character of a one-letter escape. -/
def shortEscape? (c : Char) : Option Char :=
  match c with
  | '"' => some '"'
  | '\\' => some '\\'
  | '/' => some '/'
  | 'b' => some (Char.ofNat 8)
  | 'f' => some (Char.ofNat 12)
  | 'n' => some '\n'
  | 'r' => some '\r'
  | 't' => some '\t'
  | _ => none

/-- Whether at least four bytes of UTF-8 follow. -/
def fourBytes (cs : List Char) : Bool :=
  4 ≤ (cs.take 4).foldl (fun n c => n + c.utf8Size) 0

def isHighUnit (n : Nat) : Bool := 0xD800 ≤ n && n ≤ 0xDBFF
def isLowUnit (n : Nat) : Bool := 0xDC00 ≤ n && n ≤ 0xDFFF

/-- The character of a pair of UTF-16 units. -/
def joinUnits (high low : Nat) : Char :=
  Char.ofNat (0x10000 + (high - 0xD800) * 0x400 + (low - 0xDC00))

/-- Reads a text after its opening quote; `done` holds the characters read, last first. -/
def textFrom : Progress → List Char → Reader String
  | .plain, done, c :: cs =>
    if c = '"' then .ok (String.ofList done.reverse, cs)
    else if c = '\\' then textFrom .escaped done cs
    else if c.toNat < 0x20 then .error .controlCharacter
    else textFrom .plain (c :: done) cs
  | .escaped, done, c :: cs =>
    if c = 'u' then
      if fourBytes cs then textFrom (.unit none 4 0) done cs else .error (.ended .text)
    else match shortEscape? c with
      | some d => textFrom .plain (d :: done) cs
      | none => .error .badEscape
  | .unit high left value, done, c :: cs =>
    match Text.Hex.digit? c with
    | none => .error .badEscape
    | some d =>
      let n := 16 * value + d
      if 1 < left then textFrom (.unit high (left - 1) n) done cs
      else match high with
        | none =>
          if isLowUnit n then .error .loneSurrogate
          else if isHighUnit n then textFrom (.paired n) done cs
          else textFrom .plain (Char.ofNat n :: done) cs
        | some h =>
          if isLowUnit n then textFrom .plain (joinUnits h n :: done) cs
          else .error .loneSurrogate
  | .paired high, done, c :: cs =>
    if c = '\\' then textFrom (.pairedMark high) done cs else .error .openSurrogate
  | .pairedMark high, done, c :: cs =>
    if c = 'u' then
      if fourBytes cs then textFrom (.unit (some high) 4 0) done cs else .error (.ended .text)
    else .error .openSurrogate
  | _, _, [] => .error (.ended .text)

/-- Reads a text after its opening quote. -/
def text (cs : List Char) : Except Fault (String × List Char) := textFrom .plain [] cs

/-- Quotes, backslashes and controls are escaped, by a letter if they have one. -/
def escape (c : Char) : List Char :=
  if c = '"' then ['\\', '"']
  else if c = '\\' then ['\\', '\\']
  else if 0x20 ≤ c.toNat then [c]
  else if c.toNat = 8 then ['\\', 'b']
  else if c.toNat = 12 then ['\\', 'f']
  else if c = '\n' then ['\\', 'n']
  else if c = '\r' then ['\\', 'r']
  else if c = '\t' then ['\\', 't']
  else ['\\', 'u', '0', '0', Text.Hex.digitChar (c.toNat / 16), Text.Hex.digitChar (c.toNat % 16)]

def writeText (s : String) : List Char := '"' :: s.toList.flatMap escape ++ ['"']

/-! ### Numbers -/

/-- A number without fraction and exponent that fits a word, or any other one. -/
inductive Number
  | whole (n : Int)
  | real (x : Binary64)
  deriving DecidableEq, Repr

namespace Number

/-- How messages name a number. -/
def describe : Number → String
  | .whole n => "integer `" ++ toString n ++ "`"
  | .real x => "floating point `" ++ x.text ++ "`"

def write : Number → List Char
  | .whole n => (toString n).toList
  | .real x => x.text.toList

end Number

/-- Appends digits to a significand while it fits 64 bits; also the count of digits that were
left over from the first that did not fit. -/
def gather : Nat → List Char → Nat × Nat
  | significand, [] => (significand, 0)
  | significand, d :: ds =>
    let next := 10 * significand + digitValue d
    if next < UInt64.size then gather next ds else (significand, ds.length + 1)

/-- The rounded power of ten. -/
def powerOfTen (e : Nat) : Binary64 :=
  (Binary64.ofQuotient? false (Nat.pow 10 e) 1).getD (Binary64.zero false)

/-- Divides by `10 ^ 308` while the power that remains is greater than that. -/
def scaleDown : Nat → Binary64 → Nat → Option Binary64
  | 0, x, _ => x.div? (powerOfTen 308)
  | fuel + 1, x, e =>
    if e ≤ 308 then x.div? (powerOfTen e)
    else if x.isZero then some x
    else do scaleDown fuel (← x.div? (powerOfTen 308)) (e - 308)

/-- The number `significand * 10 ^ exponent`, rounded once for the significand, once for the power of
ten and once for their product or quotient; `none` when it overflows. -/
def scale (significand : Nat) (exponent : Int) : Option Binary64 := do
  let x ← Binary64.ofQuotient? false significand 1
  if 0 ≤ exponent then
    if exponent ≤ 308 then x.mul? (powerOfTen exponent.toNat)
    else if x.isZero then some x
    else none
  else scaleDown 3 x (-exponent).toNat

/-- A real number from its parts. -/
def realOf (negative : Bool) (significand : Nat) (exponent : Int) : Except Fault Number :=
  match scale significand exponent with
  | some x => .ok (.real (if negative then x.negate else x))
  | none => .error .numberRange

/-- Reads the exponent after its mark. Exponents past 31 bits give zero or are out of range. -/
def exponentPart (negative : Bool) (significand : Nat) (start : Int) : Reader Number := fun cs => do
  let (down, cs) := splitSign cs
  let ds := cs.takeWhile isDigit
  let rest := cs.dropWhile isDigit
  if ds.isEmpty then
    .error (if rest.isEmpty then .ended .value else .badNumber)
  let e := natOf ds
  if Int32.maxValue.toInt < e then
    if significand ≠ 0 ∧ !down then .error .numberRange
    else .ok (.real (Binary64.zero negative), rest)
  else
    let n ← realOf negative significand (start + signed down e)
    .ok (n, rest)

/-- Reads what may follow the digits of the integer or of the fraction. -/
def exponentOrEnd (negative : Bool) (significand : Nat) (exponent : Int) : Reader Number
  | 'e' :: rest => exponentPart negative significand exponent rest
  | 'E' :: rest => exponentPart negative significand exponent rest
  | rest => do
    let n ← realOf negative significand exponent
    .ok (n, rest)

/-- Reads the fraction after its point. -/
def fractionPart (negative : Bool) (significand : Nat) (start : Nat) : Reader Number := fun cs =>
  let ds := cs.takeWhile isDigit
  let rest := cs.dropWhile isDigit
  if ds.isEmpty then .error (if rest.isEmpty then .ended .value else .badNumber)
  else
    let (joined, left) := gather significand ds
    exponentOrEnd negative joined ((start : Int) - (ds.length - left : Nat)) rest

/-- Reads a number after its sign. -/
def unsigned (negative : Bool) : Reader Number
  | [] => .error (.ended .value)
  | c :: cs =>
    if !isDigit c then .error .badNumber
    else
      let ds := if c = '0' then [c] else c :: cs.takeWhile isDigit
      let rest := if c = '0' then cs else cs.dropWhile isDigit
      let (significand, left) := gather 0 ds
      match rest with
      | '.' :: rest => fractionPart negative significand left rest
      | d :: _ =>
        if c = '0' ∧ isDigit d then .error .badNumber
        else if left ≠ 0 ∨ d = 'e' ∨ d = 'E' then exponentOrEnd negative significand left rest
        else .ok (wholeOf negative significand, rest)
      | [] =>
        if left ≠ 0 then exponentOrEnd negative significand left rest
        else .ok (wholeOf negative significand, rest)
where
  /-- Minus zero and numbers below the least of 64 bits with a sign are real. -/
  wholeOf (negative : Bool) (significand : Nat) : Number :=
    if !negative then .whole significand
    else if significand = 0 ∨ signed true significand < Int64.minValue.toInt then
      .real ((scale significand 0).getD (Binary64.zero false)).negate
    else .whole (-significand)

/-- Reads a number that starts with a digit or a minus sign. -/
def number : Reader Number
  | '-' :: cs => unsigned true cs
  | cs => unsigned false cs

/-! ### Other kinds than the wanted one -/

/-- The complaint about a value that starts at `cs` where `want` was expected. A malformed word,
number or text is reported as such. -/
def mismatch (want : String) (cs : List Char) : Fault :=
  match found cs with
  | .ok found => .rejected ("invalid type: " ++ found ++ ", expected " ++ want)
  | .error fault => fault
where
  found : List Char → Except Fault String
    | [] => .error (.ended .value)
    | c :: cs =>
      if c = 'n' then (fun _ => "null") <$> word ['u', 'l', 'l'] cs
      else if c = 't' then (fun _ => "boolean `true`") <$> word ['r', 'u', 'e'] cs
      else if c = 'f' then (fun _ => "boolean `false`") <$> word ['a', 'l', 's', 'e'] cs
      else if c = '"' then (fun s => "string " ++ Text.Quoted.encode s.1) <$> text cs
      else if c = '-' ∨ isDigit c then (fun n => n.1.describe) <$> number (c :: cs)
      else if c = '[' then .ok "sequence"
      else if c = '{' then .ok "map"
      else .error .expectedValue

end EventIntake.Json
