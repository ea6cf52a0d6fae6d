import EventIntake.Json.Record

/-! Where the values of a structure come from: each was read by the codec of its field, or stands for an
absent one. -/
namespace EventIntake.Json

theorem bind_ok {ε α β : Type} {x : Except ε α} {f : α → Except ε β} {b : β} :
    x >>= f = .ok b ↔ ∃ a, x = .ok a ∧ f a = .ok b := by
  cases x <;> simp [bind, Except.bind]

theorem Codec.read_of_decode {α : Type} {c : Codec α} {s : String} {a : α}
    (h : c.decode s = .ok a) : ∃ cs rest, c.read maxDepth cs = .ok (a, rest) := by
  simp only [Codec.decode, finish, bind_ok] at h
  obtain ⟨⟨a', rest⟩, hr, h⟩ := h
  refine ⟨s.toList, rest, ?_⟩
  split at h <;> cases h
  exact hr

/-- What every member keeps holds after the last. -/
theorem membersUpTo_keeps {σ : Type} {P : σ → Prop} {step : σ → String → Reader σ}
    (hstep : ∀ s name cs s' rest, P s → step s name cs = .ok (s', rest) → P s') {fuel : Nat} {first : Bool}
    {s s' : σ} {cs rest : List Char} (hs : P s)
    (h : membersUpTo step fuel first s cs = .ok (s', rest)) : P s' := by
  induction fuel generalizing first s cs with
  | zero => cases h
  | succ fuel ih =>
    simp only [membersUpTo, bind_ok] at h
    obtain ⟨⟨name, cs⟩, _, h⟩ := h
    cases name with
    | none =>
      cases h
      exact hs
    | some name =>
      simp only [bind_ok] at h
      obtain ⟨⟨s₁, cs₁⟩, hr, h⟩ := h
      exact ih (hstep s name cs s₁ cs₁ hs hr) h

/-- A value that the codec of a field reads from some text, or that an absent field stands for. -/
def Field.Obtained (f : Field) (a : f.Carrier) : Prop :=
  f.absent = some a ∨ ∃ depth cs rest, f.codec.read depth cs = .ok (a, rest)

def Values.Obtained : (fs : List Field) → Values fs → Prop
  | [], _ => True
  | f :: fs, (a, values) => f.Obtained a ∧ Values.Obtained fs values

def Slots.Obtained : (fs : List Field) → Slots fs → Prop
  | [], _ => True
  | f :: fs, (slot, slots) => (∀ a, slot = some a → f.Obtained a) ∧ Slots.Obtained fs slots

namespace Slots

theorem obtained_empty (fs : List Field) : Obtained fs (empty fs) := by
  induction fs with
  | nil => trivial
  | cons f fs ih => exact ⟨by simp, ih⟩

theorem obtained_lookup {fs : List Field} {slots slots' : Slots fs} {key : String}
    {fill : Nat → Reader (Slots fs)} {depth : Nat} {cs rest : List Char} (hs : Obtained fs slots)
    (hl : lookup fs slots key = .free fill) (h : fill depth cs = .ok (slots', rest)) :
    Obtained fs slots' := by
  induction fs generalizing rest with
  | nil => cases hl
  | cons f fs ih =>
    obtain ⟨slot, slots⟩ := slots
    simp only [lookup] at hl
    split at hl
    · split at hl
      · cases hl
      · cases hl
        obtain ⟨⟨a, cs'⟩, hr, h⟩ := bind_ok.mp h
        cases h
        refine ⟨fun b hb => ?_, hs.2⟩
        cases hb
        exact .inr ⟨depth, cs, cs', hr⟩
    · cases hk : lookup fs slots key with
      | unknown => simp [hk] at hl
      | taken => simp [hk] at hl
      | free fill' =>
        simp only [hk] at hl
        cases hl
        obtain ⟨⟨slots₁, cs'⟩, hr, h⟩ := bind_ok.mp h
        cases h
        exact ⟨hs.1, ih hs.2 hk hr⟩

theorem obtained_member {fs : List Field} {depth : Nat} {slots slots' : Slots fs} {key : String}
    {cs rest : List Char} (hs : Obtained fs slots) (h : member fs depth slots key cs = .ok (slots', rest)) :
    Obtained fs slots' := by
  simp only [member] at h
  cases hl : lookup fs slots key with
  | taken => simp [hl] at h
  | unknown =>
    simp only [hl, bind_ok] at h
    obtain ⟨_, _, _, _, h⟩ := h
    cases h
    exact hs
  | free fill =>
    simp only [hl, bind_ok] at h
    obtain ⟨_, _, h⟩ := h
    exact obtained_lookup hs hl h

theorem obtained_complete {fs : List Field} {slots : Slots fs} {values : Values fs}
    (hs : Obtained fs slots) (h : complete fs slots = .ok values) : Values.Obtained fs values := by
  induction fs with
  | nil => trivial
  | cons f fs ih =>
    obtain ⟨slot, slots⟩ := slots
    obtain ⟨hslot, hslots⟩ := hs
    simp only [complete] at h
    cases ha : slot.or f.absent with
    | none => simp [ha] at h
    | some a =>
      simp only [ha, bind_ok] at h
      obtain ⟨values', hv, h⟩ := h
      cases h
      refine ⟨?_, ih hslots hv⟩
      rcases Option.or_eq_some_iff.mp ha with hb | ⟨_, hb⟩
      · exact hslot a hb
      · exact .inl hb

end Slots

theorem Values.obtained_fromItems {size : String} {depth : Nat} {fs : List Field} {first : Bool}
    {index : Nat} {values : Values fs} {cs rest : List Char}
    (h : fromItems size depth fs first index cs = .ok (values, rest)) : Obtained fs values := by
  induction fs generalizing first index cs rest with
  | nil => trivial
  | cons f fs ih =>
    simp only [fromItems, bind_ok] at h
    obtain ⟨⟨more, cs⟩, _, h⟩ := h
    cases more with
    | true =>
      simp only [if_true, bind_ok] at h
      obtain ⟨⟨a, cs'⟩, hr, ⟨values', _⟩, hv, h⟩ := h
      cases h
      exact ⟨.inr ⟨depth, cs, cs', hr⟩, ih hv⟩
    | false =>
      simp only [Bool.false_eq_true, if_false] at h
      cases ha : f.absent with
      | none => simp [ha] at h
      | some a =>
        simp only [ha, bind_ok] at h
        obtain ⟨⟨values', _⟩, hv, h⟩ := h
        cases h
        exact ⟨.inl ha, ih hv⟩

/-- A structure is made of obtained values, whichever form it was read from. -/
theorem Codec.obtained_record {α : Type} {name : String} {fs : List Field} {of : Values fs → α}
    {fields : α → Values fs} {depth : Nat} {cs rest : List Char} {a : α}
    (h : (Codec.record name fs of fields).read depth cs = .ok (a, rest)) :
    ∃ values, Values.Obtained fs values ∧ a = of values := by
  simp only [Codec.record, Codec.afterBlank] at h
  split at h
  · cases h
  · split at h
    · cases depth with
      | zero => cases h
      | succ depth =>
        simp only [nested, bind_ok] at h
        obtain ⟨⟨values, _⟩, hv, _, _, h⟩ := h
        cases h
        exact ⟨values, Values.obtained_fromItems hv, rfl⟩
    · cases depth with
      | zero => cases h
      | succ depth =>
        simp only [nested, bind_ok] at h
        obtain ⟨⟨slots, _⟩, hm, values, hv, _, _, h⟩ := h
        cases h
        have hs := membersUpTo_keeps (fun _ _ _ _ _ hs h => Slots.obtained_member hs h)
          (Slots.obtained_empty fs) hm
        exact ⟨values, Slots.obtained_complete hs hv, rfl⟩
    · cases h

end EventIntake.Json
