import EventIntake.Decimal.Binary64

/-! The fewest decimal digits that read back as a given binary64 number. -/
namespace EventIntake.Decimal

/-- The number `digits * 10 ^ exponent`. -/
structure Scientific where
  digits : Nat
  exponent : Int
  deriving DecidableEq, Repr

namespace Scientific

def digitChars (s : Scientific) : List Char := Nat.toDigits 10 s.digits

/-- Divides out factors of ten, at most `fuel` of them. -/
def trim : Nat → Scientific → Scientific
  | 0, s => s
  | fuel + 1, s =>
    if s.digits ≠ 0 ∧ s.digits % 10 = 0 then trim fuel ⟨s.digits / 10, s.exponent + 1⟩ else s

/-- The exponent of the first digit. -/
def leading (s : Scientific) : Int := s.exponent + s.digitChars.length - 1

end Scientific

namespace Binary64

/-- The greatest `k` with `10 ^ k ≤ num / den`, for positive `num` and `den`. -/
def decade (num den : Nat) : Int :=
  if den ≤ num then ((Nat.toDigits 10 (num / den)).length : Int) - 1
  else -((Nat.toDigits 10 ((den - 1) / num)).length : Int)

/-- Quarter steps of the last place: the number itself and the ends of the interval that rounds to
it. The step below a power of two is half as wide. -/
def quarters (x : Binary64) : Nat × Nat × Nat :=
  let m := x.mantissa
  let below := if m = hidden ∧ -1074 < x.exponent then 1 else 2
  (4 * m, 4 * m - below, 4 * m + 2)

/-- The neighbour of `x` on the grid of multiples of `10 ^ p` that rounds to `x`, the nearer one
first and of two equally near ones the even one. -/
def onGrid? (x : Binary64) (p : Int) : Option Nat :=
  let q := x.exponent - 2
  let unit := Nat.pow 10 p.toNat * Nat.pow 2 (-q).toNat
  let step := Nat.pow 2 q.toNat * Nat.pow 10 (-p).toNat
  let (mid, low, high) := x.quarters
  let fits (c : Nat) : Bool :=
    if x.mantissa % 2 = 0 then low * step ≤ c * unit && c * unit ≤ high * step
    else low * step < c * unit && c * unit < high * step
  let floor := mid * step / unit
  let gap := 2 * (mid * step % unit)
  let first := if gap < unit ∨ gap = unit ∧ floor % 2 = 0 then floor else floor + 1
  let second := if first = floor then floor + 1 else floor
  if fits first then some first else if fits second then some second else none

/-- Tries one digit, then two, and so on for `fuel` counts. -/
def shortestFrom (x : Binary64) (top : Int) : Nat → Nat → Scientific
  | 0, n => ⟨(x.onGrid? (top - n + 1)).getD 0, top - n + 1⟩
  | fuel + 1, n =>
    match x.onGrid? (top - n + 1) with
    | some digits => ⟨digits, top - n + 1⟩
    | none => shortestFrom x top fuel (n + 1)

/-- The shortest decimal that rounds to the magnitude of `x`; zero for zero. -/
def shortest (x : Binary64) : Scientific :=
  if x.isZero then ⟨0, 0⟩
  else ((x.shortestFrom (decade x.quotient.1 x.quotient.2) 16 1)).trim 20

end Binary64

end EventIntake.Decimal
