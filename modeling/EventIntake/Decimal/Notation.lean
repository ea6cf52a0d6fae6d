import EventIntake.Decimal.Shortest

/-! Decimal texts of binary64 numbers. -/
namespace EventIntake.Decimal

namespace Scientific

/-- Positional digits; `always` keeps a fractional part of zero. -/
def positional (s : Scientific) (always : Bool) : List Char :=
  let ds := s.digitChars
  if 0 ≤ s.exponent then
    let whole := ds ++ List.replicate s.exponent.toNat '0'
    if always then whole ++ ['.', '0'] else whole
  else
    let places := (-s.exponent).toNat
    if places < ds.length then
      ds.take (ds.length - places) ++ '.' :: ds.drop (ds.length - places)
    else '0' :: '.' :: List.replicate (places - ds.length) '0' ++ ds

/-- One digit before the point, then the power of ten with its sign. -/
def exponential (s : Scientific) : List Char :=
  let mark := if s.leading < 0 then ['e', '-'] else ['e', '+']
  let power := mark ++ Nat.toDigits 10 s.leading.natAbs
  match s.digitChars with
  | d :: [] => d :: power
  | d :: ds => d :: '.' :: ds ++ power
  | [] => power

end Scientific

namespace Binary64

def signChars (x : Binary64) : List Char := if x.negative then ['-'] else []

/-- Positional with a fraction for magnitudes from `10 ^ -5` up to below `10 ^ 16`, exponential
otherwise. -/
def text (x : Binary64) : String :=
  let s := x.shortest
  String.ofList (x.signChars ++
    if x.isZero ∨ (-5 ≤ s.leading ∧ s.leading < 16) then s.positional true else s.exponential)

/-- Positional at every magnitude, whole numbers without a fraction. -/
def plainText (x : Binary64) : String :=
  String.ofList (x.signChars ++ x.shortest.positional false)

end Binary64

/-- As `Binary64.plainText`, with words for what is not finite. -/
def Extended.plainText : Extended → String
  | .finite x => x.plainText
  | .infinite negative => if negative then "-inf" else "inf"
  | .nan => "NaN"

end EventIntake.Decimal
