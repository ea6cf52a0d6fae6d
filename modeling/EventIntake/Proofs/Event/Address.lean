import EventIntake.Event.Owner
import EventIntake.Proofs.Text.Hex

/-! The normal form of an address is its own normal form. -/
namespace EventIntake.Event
open Text

namespace Address

theorem length_fit (bytes : List UInt8) : (fit bytes).length = size := by
  simp only [fit, List.length_append, List.length_replicate, List.length_drop]
  omega

theorem fit_of_length {bytes : List UInt8} (h : bytes.length = size) : fit bytes = bytes := by
  simp [fit, h]

/-- What is normal already stays. -/
theorem normalize_written {bytes : List UInt8} (h : bytes.length = size) :
    normalize (String.ofList ('0' :: 'x' :: Hex.encode bytes)) = String.ofList ('0' :: 'x' :: Hex.encode bytes) := by
  have hdigits : digits (String.ofList ('0' :: 'x' :: Hex.encode bytes)) = Hex.encode bytes := by simp [digits]
  have hevened : evened (Hex.encode bytes) = Hex.encode bytes := by
    rw [evened, Hex.length_encode, if_neg (by omega)]
  rw [normalize, hdigits, hevened, Hex.decode_encode]
  simp only [fit_of_length h]

theorem normalize_normalize (raw : String) : normalize (normalize raw) = normalize raw := by
  cases h : Hex.decode (evened (digits raw)) with
  | some bytes =>
    have hraw : normalize raw = String.ofList ('0' :: 'x' :: Hex.encode (fit bytes)) := by simp only [normalize, h]
    rw [hraw]
    exact normalize_written (length_fit bytes)
  | none =>
    have hraw : normalize raw = raw := by simp only [normalize, h]
    rw [hraw, hraw]

end Address

/-- An owning address is in normal form. -/
theorem Owner.normalize_address {owner : Owner} {a : String} (h : owner.address = some a) :
    Address.normalize a = a := by
  cases owner with
  | named => cases h
  | owned kind =>
    obtain ⟨raw, _, rfl⟩ := Option.map_eq_some_iff.mp h
    exact Address.normalize_normalize raw

end EventIntake.Event
