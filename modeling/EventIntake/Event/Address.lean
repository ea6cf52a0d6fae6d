import EventIntake.Text.Hex

/-! Normal form of account and object addresses. -/
namespace EventIntake.Event.Address

/-- Bytes in an address. -/
def size : Nat := 20

/-- The digits behind at most one `0x`. -/
def digits (raw : String) : List Char :=
  match raw.toList with
  | '0' :: 'x' :: rest => rest
  | '0' :: 'X' :: rest => rest
  | cs => cs

/-- A zero in front of an odd number of digits. -/
def evened (ds : List Char) : List Char :=
  if ds.length % 2 = 1 then '0' :: ds else ds

/-- The last bytes, with zeros in front of too few. -/
def fit (bytes : List UInt8) : List UInt8 :=
  List.replicate (size - bytes.length) 0 ++ bytes.drop (bytes.length - size)

/-- The lower-case form of an address with `0x` and all digits. Text that is not hexadecimal stays as
it is. -/
def normalize (raw : String) : String :=
  match Text.Hex.decode (evened (digits raw)) with
  | some bytes => String.ofList ('0' :: 'x' :: Text.Hex.encode (fit bytes))
  | none => raw

end EventIntake.Event.Address
