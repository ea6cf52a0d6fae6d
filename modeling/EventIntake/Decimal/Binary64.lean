/-! Finite binary64 numbers with exact arithmetic on natural numbers. -/
namespace EventIntake.Decimal

/-- A finite number: its sign, and its place in the ascending list of nonnegative binary64 numbers,
which is also its bit pattern without the sign. -/
structure Binary64 where
  negative : Bool
  ordinal : Nat
  finite : ordinal < 0x7FF0000000000000 := by decide
  deriving DecidableEq, Repr

namespace Binary64

/-- The leading bit of a mantissa, which the bit pattern leaves out. -/
def hidden : Nat := 0x10000000000000

/-- The integer `m` of the magnitude `m * 2 ^ e`. -/
def mantissa (x : Binary64) : Nat :=
  if x.ordinal < hidden then x.ordinal else hidden + x.ordinal % hidden

/-- The exponent `e` of the magnitude `m * 2 ^ e`. -/
def exponent (x : Binary64) : Int :=
  if x.ordinal < hidden then -1074 else ((x.ordinal / hidden : Nat) : Int) - 1075

def isZero (x : Binary64) : Bool := x.ordinal == 0

/-- The magnitude as a quotient of natural numbers. -/
def quotient (x : Binary64) : Nat × Nat :=
  (x.mantissa * Nat.pow 2 x.exponent.toNat, Nat.pow 2 (-x.exponent).toNat)

/-- The greatest `k` with `2 ^ k ≤ num / den`, for positive `num` and `den`. -/
def binade (num den : Nat) : Int :=
  let k : Int := (num.log2 : Int) - den.log2
  if den * Nat.pow 2 k.toNat ≤ num * Nat.pow 2 (-k).toNat then k else k - 1

/-- The quotient `num / den` rounded to the nearest integer, a half to the even one. -/
def roundHalfEven (num den : Nat) : Nat :=
  let q := num / den
  let twice := 2 * (num % den)
  if twice < den then q
  else if den < twice then q + 1
  else q + q % 2

/-- The ordinal of the binary64 number nearest to `num / den`, half to even. It may lie past the
finite ones. -/
def nearestOrdinal (num den : Nat) : Nat :=
  if num = 0 then 0
  else
    let e := max (-1074) (binade num den - 52)
    let m := roundHalfEven (num * Nat.pow 2 (-e).toNat) (den * Nat.pow 2 e.toNat)
    (e + 1074).toNat * hidden + m

/-- The nearest number to a quotient; `none` when it overflows. -/
def ofQuotient? (negative : Bool) (num den : Nat) : Option Binary64 :=
  let n := nearestOrdinal num den
  if h : n < 0x7FF0000000000000 then some ⟨negative, n, h⟩ else none

def zero (negative : Bool) : Binary64 := ⟨negative, 0, by decide⟩

def negate (x : Binary64) : Binary64 := { x with negative := !x.negative }

/-- The rounded product; `none` when it overflows. -/
def mul? (x y : Binary64) : Option Binary64 :=
  ofQuotient? (x.negative != y.negative) (x.quotient.1 * y.quotient.1) (x.quotient.2 * y.quotient.2)

/-- The rounded quotient; `none` when it overflows. -/
def div? (x y : Binary64) : Option Binary64 :=
  ofQuotient? (x.negative != y.negative) (x.quotient.1 * y.quotient.2) (x.quotient.2 * y.quotient.1)

/-- The magnitude rounded to the nearest integer, a half away from zero. -/
def roundAway (x : Binary64) : Nat :=
  (2 * x.quotient.1 + x.quotient.2) / (2 * x.quotient.2)

end Binary64

/-- A binary64 number, infinity or the value that is no number. -/
inductive Extended
  | finite (x : Binary64)
  | infinite (negative : Bool)
  | nan
  deriving DecidableEq, Repr

end EventIntake.Decimal
