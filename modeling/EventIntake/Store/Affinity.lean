import EventIntake.Decimal.Binary64
import EventIntake.Decimal.Digits
import EventIntake.Record.Row
import EventIntake.Record.Schema

/-! What a column makes of a value of the other type. -/
namespace EventIntake.Affinity
open Decimal

def isBlank (c : Char) : Bool := c == ' ' || (9 ≤ c.toNat && c.toNat ≤ 13)

/-- The exponent after a significand, if nothing but blanks follows it. -/
def exponent? (cs : List Char) : Option Int :=
  let power (rest : List Char) : Option Int :=
    let (negative, rest) := splitSign rest
    let ds := rest.takeWhile isDigit
    if ds.isEmpty ∨ !(rest.dropWhile isDigit).all isBlank then none
    else some (signed negative (natOf ds))
  match cs with
  | 'e' :: rest => power rest
  | 'E' :: rest => power rest
  | rest => if rest.all isBlank then some 0 else none

/-- The whole number nearest to `m * 10 ^ e`, if that is a whole number inside 64 bits. -/
def wholeOf? (m : Nat) (e : Int) : Option Nat :=
  if m = 0 ∨ e < -400 - (m.log2 : Int) then some 0
  else if 20 < e then none
  else do
    let x ← Binary64.ofQuotient? false (m * Nat.pow 10 e.toNat) (Nat.pow 10 (-e).toNat)
    let (num, den) := x.quotient
    if num % den = 0 ∧ num / den ≤ Int64.maxValue.toInt then some (num / den) else none

/-- The whole number that a text spells, with blanks around it, a sign, a fraction or an exponent. -/
def spelled? (s : String) : Option Int64 :=
  let (negative, cs) := splitSign (s.toList.dropWhile isBlank)
  let whole := cs.takeWhile isDigit
  let rest := cs.dropWhile isDigit
  let plain := if whole ≠ [] ∧ rest.all isBlank then fitInt64? (signed negative (natOf whole)) else none
  plain <|> do
    let (fraction, rest) := match rest with
      | '.' :: rest => (rest.takeWhile isDigit, rest.dropWhile isDigit)
      | rest => ([], rest)
    if whole.isEmpty ∧ fraction.isEmpty then none
    else
      let e ← exponent? rest
      let m ← wholeOf? (natOf (whole ++ fraction)) (e - fraction.length)
      fitInt64? (signed negative m)

/-- Numbers in a text column become their digits; texts that spell a whole number become that number in
a number column. A text that spells any other number, such as 1.5 or one beyond 64 bits, is kept, where SQLite stores the
nearest binary64 number. No row of an event has a text in a number column. -/
def apply (kind : Schema.ColumnKind) (v : Cell) : Cell :=
  match kind, v with
  | .text, .int n => .text (toString n.toInt)
  | .bigInt, .text s => ((spelled? s).map Cell.int).getD (.text s)
  | _, v => v

end EventIntake.Affinity
