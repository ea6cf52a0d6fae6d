import EventIntake.Decimal.Binary64
import EventIntake.Decimal.Digits

/-! Numbers spelled in settings. -/
namespace EventIntake.Decimal

/-- The number that digits spell in a base. -/
def natOfDigits (base : Nat) (ds : List Nat) : Nat := ds.foldl (fun n d => base * n + d) 0

/-- A whole number in digits of the given base, with or without a sign. -/
def wholeOf? (base : Nat) (digit? : Char → Option Nat) (cs : List Char) : Option Int := do
  let (negative, rest) := splitSign cs
  if rest.isEmpty then none
  else some (signed negative (natOfDigits base (← rest.mapM digit?)))

def decimalDigit? (c : Char) : Option Nat := if isDigit c then some (digitValue c) else none

/-- A whole number that fits 64 bits with a sign. -/
def int64? (base : Nat) (digit? : Char → Option Nat) (cs : List Char) : Option Int64 :=
  (wholeOf? base digit? cs).bind fitInt64?

/-- The value nearest to `m * 10 ^ e`. Magnitudes far outside the range are not worked out. -/
def nearest (negative : Bool) (m : Nat) (e : Int) : Extended :=
  let top := e + (Nat.toDigits 10 m).length
  if m = 0 ∨ top < -400 then .finite (Binary64.zero negative)
  else if 400 < top then .infinite negative
  else match Binary64.ofQuotient? negative (m * Nat.pow 10 e.toNat) (Nat.pow 10 (-e).toNat) with
    | some x => .finite x
    | none => .infinite negative

/-- The exponent of a number, which may be left out. -/
def exponent? (cs : List Char) : Option Int :=
  match cs with
  | [] => some 0
  | c :: rest => if c = 'e' ∨ c = 'E' then wholeOf? 10 decimalDigit? rest else none

def lower (cs : List Char) : List Char := cs.map Char.toLower

/-- A number with a sign, a fraction and an exponent, all but one digit of which may be missing, or a
word for infinity or no number. -/
def extended? (cs : List Char) : Option Extended :=
  let (negative, rest) := splitSign cs
  let word := lower rest
  if word = "inf".toList ∨ word = "infinity".toList then some (.infinite negative)
  else if word = "nan".toList then some .nan
  else
    let whole := rest.takeWhile isDigit
    let after := rest.dropWhile isDigit
    let (fraction, after) := match after with
      | '.' :: after => (after.takeWhile isDigit, after.dropWhile isDigit)
      | after => ([], after)
    if whole.isEmpty ∧ fraction.isEmpty then none
    else do
      let e ← exponent? after
      some (nearest negative (natOf (whole ++ fraction)) (e - fraction.length))

end EventIntake.Decimal
