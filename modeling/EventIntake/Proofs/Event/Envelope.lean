import EventIntake.Event.Envelope
import EventIntake.Proofs.Json.Record
import EventIntake.Proofs.Sorted
import EventIntake.Proofs.Text.ByteOrder

/-! The entries of a decoded envelope stand in ascending order of the bytes of their tags. -/
namespace EventIntake
open Json

theorem Json.Codec.ascending_rawMembers {depth : Nat} {cs rest : List Char}
    {members : List (String × String)} (h : Codec.rawMembers.read depth cs = .ok (members, rest)) :
    Sorted.Ascending members := by
  simp only [Codec.rawMembers, Codec.afterBlank] at h
  split at h
  · cases h
  · split at h
    · cases depth with
      | zero => cases h
      | succ depth =>
        simp only [Codec.nested, bind_ok] at h
        obtain ⟨⟨kept, _⟩, hm, _, _, h⟩ := h
        cases h
        refine membersUpTo_keeps (fun kept name cs kept' rest hk hs => ?_) .nil hm
        simp only [bind_ok] at hs
        obtain ⟨_, _, ⟨v, _⟩, _, hs⟩ := hs
        cases hs
        exact hk.insert name v
    · cases h

namespace Event

theorem Envelope.ascending_payloads {s : String} {envelope : Envelope}
    (h : Envelope.decode s = .ok envelope) : Sorted.Ascending envelope.payloads := by
  simp only [Envelope.decode] at h
  split at h
  · cases h
  · rename_i p hp
    split at h
    · cases h
    · cases h
      obtain ⟨_, _, hr⟩ := Codec.read_of_decode hp
      obtain ⟨⟨_, _, _, event, _⟩, ⟨_, _, _, he, _⟩, rfl⟩ := Codec.obtained_record hr
      rcases he with he | ⟨_, _, _, he⟩
      · cases he
      · exact Codec.ascending_rawMembers he

theorem Envelope.payloads_byte_order {s : String} {envelope : Envelope}
    (h : Envelope.decode s = .ok envelope) :
    envelope.payloads.Pairwise fun a b => Text.bytes a.1 < Text.bytes b.1 :=
  (ascending_payloads h).imp Text.bytes_lt_iff.mpr

end Event

end EventIntake
