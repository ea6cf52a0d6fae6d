import EventIntake.Event.Envelope
import Mathlib.Tactic.FinCases

/-! The decoders of payloads go by the tags of the categories, and decode to events of their category. -/
namespace EventIntake.Event

namespace Payload

theorem map_fst_decoders : decoders.map Prod.fst = Category.all := rfl

theorem ofTag?_eq (tag : String) :
    Category.ofTag? tag = (decoders.find? fun d => d.1.tag == tag).map Prod.fst := by
  rw [Category.ofTag?, ← map_fst_decoders, List.find?_map]
  rfl

theorem isSome_decoder? (tag : String) : (decoder? tag).isSome = (Category.ofTag? tag).isSome := by
  rw [ofTag?_eq, decoder?, Option.isSome_map, Option.isSome_map]

theorem category_of_decoders {d : Category × (String → Except Json.Fault Payload)} (hd : d ∈ decoders)
    {s : String} {p : Payload} (h : d.2 s = .ok p) : p.category = d.1 := by
  have hmap {α : Type} {f : α → Payload} {x : Except Json.Fault α} (hx : f <$> x = .ok p) : ∃ a, f a = p := by
    cases x with
    | error _ => cases hx
    | ok a => exact ⟨a, Except.ok.inj hx⟩
  fin_cases hd <;>
    · obtain ⟨_, rfl⟩ := hmap h
      rfl

end Payload

/-- A decoded event is of the category of its tag. -/
theorem ofTag?_of_decodeTagged {tag s : String} {p : Payload} (h : decodeTagged tag s = .ok p) :
    Category.ofTag? tag = some p.category := by
  rw [decodeTagged, Payload.decoder?] at h
  rw [Payload.ofTag?_eq]
  cases hd : Payload.decoders.find? fun d => d.1.tag == tag with
  | none => simp [hd] at h
  | some d =>
    rw [hd] at h
    cases hs : d.2 s with
    | error fault => simp [hs] at h
    | ok p' =>
      simp only [Option.map_some, hs] at h
      cases h
      exact congrArg some (Payload.category_of_decoders (List.mem_of_find?_eq_some hd) hs).symm

end EventIntake.Event
