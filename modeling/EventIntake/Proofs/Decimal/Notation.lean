import EventIntake.Decimal.Notation
import EventIntake.Proofs.Decimal.Digits
import EventIntake.Proofs.Decimal.Shortest
import Mathlib.Tactic.FieldSimp

/-! The decimal text of a binary64 number tells it apart from all others. -/
namespace EventIntake.Decimal

/-! ### Digits -/

theorem natOf_append (ds es : List Char) : natOf (ds ++ es) = natOf ds * 10 ^ es.length + natOf es := by
  have hfoldl : ∀ n, es.foldl (fun n d => 10 * n + digitValue d) n = n * 10 ^ es.length + natOf es := by
    induction es with
    | nil => simp [natOf]
    | cons e es ih =>
      intro n
      rw [natOf, List.foldl_cons, List.foldl_cons, ih, ih (10 * 0 + _), List.length_cons, Nat.pow_succ]
      ring
  rw [natOf, List.foldl_append, hfoldl]
  rfl

theorem natOf_zeros (k : Nat) : natOf (List.replicate k '0') = 0 := by
  induction k with
  | zero => rfl
  | succ k ih =>
    rw [List.replicate_succ', natOf_append, ih]
    rfl

theorem natOf_toDigits (n : Nat) : natOf (Nat.toDigits 10 n) = n := by
  have h := natOf_toString n
  rwa [Nat.toString_eq_repr, Nat.toList_repr] at h

theorem isDigit_toDigits (n : Nat) : ∀ c ∈ Nat.toDigits 10 n, isDigit c = true := by
  have h := isDigit_toString n
  rwa [Nat.toString_eq_repr, Nat.toList_repr, List.all_eq_true] at h

/-- Digits without a zero in front. -/
def Significant (ds : List Char) : Prop := ∃ d rest, ds = d :: rest ∧ d ≠ '0' ∧ ∀ c ∈ ds, isDigit c = true

theorem significant_toDigits {n : Nat} (h : n ≠ 0) : Significant (Nat.toDigits 10 n) := by
  have hcases := toString_cases n
  rw [Nat.toString_eq_repr, Nat.toList_repr] at hcases
  rcases hcases with ⟨hzero, _⟩ | ⟨d, rest, hds, hd, _⟩
  · exact absurd hzero h
  · exact ⟨d, rest, hds, hd, isDigit_toDigits n⟩

theorem Significant.append {ds es : List Char} (h : Significant ds) (hes : ∀ c ∈ es, isDigit c = true) :
    Significant (ds ++ es) := by
  obtain ⟨d, rest, rfl, hd, hds⟩ := h
  exact ⟨d, rest ++ es, rfl, hd, List.forall_mem_append.mpr ⟨hds, hes⟩⟩

theorem Significant.take {ds : List Char} (h : Significant ds) {n : Nat} (hn : 0 < n) : Significant (ds.take n) := by
  obtain ⟨d, rest, rfl, hd, hds⟩ := h
  obtain ⟨n, rfl⟩ := Nat.exists_eq_add_one_of_ne_zero hn.ne'
  exact ⟨d, rest.take n, rfl, hd, fun c hc => hds c (List.mem_of_mem_take hc)⟩

/-! ### Parts of a text -/

/-- The power of ten of a text, if any. -/
def Parts.IsPower (cs : List Char) : Prop :=
  cs = [] ∨ ∃ sign ds, (sign = '+' ∨ sign = '-') ∧ ds ≠ [] ∧ (∀ c ∈ ds, isDigit c = true) ∧ cs = 'e' :: sign :: ds

/-- A text of zero or of a positive number by its parts. -/
structure Parts where
  whole : List Char
  fraction : List Char
  power : List Char
  whole_form : whole = ['0'] ∨ Significant whole
  fraction_digits : ∀ c ∈ fraction, isDigit c = true
  power_form : Parts.IsPower power
  /-- Whole numbers look different. -/
  marked : fraction ≠ [] ∨ power ≠ []

/-- The power of ten that a text ends with, which is that of zero if it is left out. -/
def powerOf : List Char → Int
  | 'e' :: '+' :: ds => natOf ds
  | 'e' :: '-' :: ds => -natOf ds
  | _ => 0

namespace Parts

def text (t : Parts) : List Char := t.whole ++ ((if t.fraction = [] then [] else '.' :: t.fraction) ++ t.power)

def value (t : Parts) : ℚ := natOf (t.whole ++ t.fraction) * 10 ^ (powerOf t.power - t.fraction.length)

theorem whole_digits (t : Parts) : ∀ c ∈ t.whole, isDigit c = true := by
  rcases t.whole_form with h | ⟨_, _, _, _, h⟩
  · simp [h, isDigit]
  · exact h

end Parts

theorem Parts.opens (t : Parts) : ∃ d rest, t.text = d :: rest ∧ isDigit d = true := by
  rcases t.whole_form with h | ⟨d, rest, h, _, hdigits⟩
  · exact ⟨'0', _, by rw [text, h]; rfl, by simp [isDigit]⟩
  · exact ⟨d, rest ++ _, by rw [text, h]; rfl, hdigits d (h ▸ .head _)⟩

theorem Parts.mark (t : Parts) : ∃ c ∈ t.text, c = '.' ∨ c = 'e' := by
  by_cases hfraction : t.fraction = []
  · obtain hpower | ⟨_, _, _, _, _, hpower⟩ := t.power_form
    · exact absurd hpower (t.marked.resolve_left (not_not_intro hfraction))
    · exact ⟨'e', by simp [text, hpower], .inr rfl⟩
  · exact ⟨'.', by simp [text, hfraction], .inl rfl⟩

/-- What a text stands for. -/
def decimalOf (cs : List Char) : ℚ :=
  let whole := cs.takeWhile isDigit
  match cs.dropWhile isDigit with
  | '.' :: rest =>
    natOf (whole ++ rest.takeWhile isDigit) *
      10 ^ (powerOf (rest.dropWhile isDigit) - (rest.takeWhile isDigit).length)
  | rest => natOf whole * 10 ^ powerOf rest

/-- A text is cut into its parts in one way only. -/
theorem Parts.decimalOf_text (t : Parts) : decimalOf t.text = t.value := by
  have hpower : ∀ c ∈ t.power.head?, isDigit c = false := by
    rcases t.power_form with h | ⟨_, _, _, _, _, h⟩ <;> simp [h, isDigit]
  by_cases hfraction : t.fraction = []
  · obtain ⟨htake, hdrop⟩ := span_digits t.whole_digits hpower
    have htext : t.text = t.whole ++ t.power := by simp [text, hfraction]
    rw [decimalOf, htext, htake, hdrop, value, hfraction, List.append_nil, List.length_nil, Nat.cast_zero, sub_zero]
    rcases t.power_form with h | ⟨_, _, _, _, _, h⟩
    · rw [h]
    · rw [h]
      rfl
  · have hpoint : ∀ c ∈ ('.' :: (t.fraction ++ t.power)).head?, isDigit c = false := by simp [isDigit]
    obtain ⟨htake, hdrop⟩ := span_digits t.whole_digits hpoint
    obtain ⟨htake', hdrop'⟩ := span_digits t.fraction_digits hpower
    have htext : t.text = t.whole ++ '.' :: (t.fraction ++ t.power) := by simp [text, hfraction]
    rw [decimalOf, htext, htake, hdrop, value]
    simp only [htake', hdrop']

/-! ### Decimals in digits -/

namespace Scientific

/-- A decimal in digits, and perhaps a power of ten. -/
def Spelled (s : Scientific) (cs : List Char) : Prop := ∃ t : Parts, t.text = cs ∧ t.value = s.value

theorem Spelled.of_parts {whole fraction power : List Char} {s : Scientific}
    (hwhole : whole = ['0'] ∨ Significant whole) (hfraction : ∀ c ∈ fraction, isDigit c = true)
    (hpower : Parts.IsPower power) (hmarked : fraction ≠ [] ∨ power ≠ []) (k : Nat) (hdigits : natOf (whole ++ fraction) = s.digits * 10 ^ k)
    (hexponent : powerOf power - fraction.length = s.exponent - k) :
    s.Spelled (whole ++ ((if fraction = [] then [] else '.' :: fraction) ++ power)) := by
  refine ⟨⟨whole, fraction, power, hwhole, hfraction, hpower, hmarked⟩, rfl, ?_⟩
  rw [Parts.value, value, hdigits, hexponent, zpow_sub₀ (by norm_num), zpow_natCast]
  push_cast
  field_simp

/-- With no power of ten, the point is as many places from the end as the exponent says. -/
theorem Spelled.of_point {whole fraction : List Char} {s : Scientific} (hwhole : whole = ['0'] ∨ Significant whole)
    (hfraction : ∀ c ∈ fraction, isDigit c = true) (hne : fraction ≠ [])
    (k : Nat) (hdigits : natOf (whole ++ fraction) = s.digits * 10 ^ k) (hexponent : s.exponent + fraction.length = k) :
    s.Spelled (whole ++ '.' :: fraction) := by
  have hnone : powerOf [] = 0 := rfl
  have hspelled := Spelled.of_parts hwhole hfraction (.inl rfl) (.inl hne) k hdigits (by rw [hnone]; omega)
  rwa [if_neg hne, List.append_nil] at hspelled

theorem spelled_positional {s : Scientific} (h : s.digits ≠ 0 ∨ s.exponent = 0) : s.Spelled (s.positional true) := by
  have hdigits : ∀ c ∈ s.digitChars, isDigit c = true := isDigit_toDigits s.digits
  have hnatOf : natOf s.digitChars = s.digits := natOf_toDigits s.digits
  have hlength : 0 < s.digitChars.length := Nat.length_toDigits_pos
  have hzeros (k : Nat) : ∀ c ∈ List.replicate k '0', isDigit c = true := by simp [isDigit]
  simp only [positional, if_true]
  split
  · rename_i hexponent
    have hwhole : s.digitChars ++ List.replicate s.exponent.toNat '0' = ['0'] ∨
        Significant (s.digitChars ++ List.replicate s.exponent.toNat '0') := by
      by_cases hzero : s.digits = 0
      · have he : s.exponent = 0 := h.resolve_left (not_not_intro hzero)
        exact .inl (by simp [digitChars, hzero, he])
      · exact .inr ((significant_toDigits hzero).append (hzeros _))
    refine .of_point hwhole (by simp [isDigit]) (by simp) (s.exponent.toNat + 1) ?_ (by simp; omega)
    rw [natOf_append, natOf_append, natOf_zeros, hnatOf, List.length_replicate, List.length_singleton,
      Nat.pow_one, Nat.pow_succ]
    simp [natOf, digitValue, Nat.mul_assoc]
  · rename_i hexponent
    have hzero : s.digits ≠ 0 := h.resolve_right (by omega)
    split
    · rename_i hplaces
      have hfraction :
          (s.digitChars.drop (s.digitChars.length - (-s.exponent).toNat)).length = (-s.exponent).toNat := by
        rw [List.length_drop]
        omega
      refine .of_point (.inr ((significant_toDigits hzero).take (Nat.sub_pos_of_lt hplaces)))
        (fun c hc => hdigits c (List.mem_of_mem_drop hc)) (List.length_pos_iff.mp (by omega)) 0 ?_ (by omega)
      rw [Nat.pow_zero, Nat.mul_one, ← hnatOf]
      exact congrArg natOf (List.take_append_drop _ _)
    · rename_i hplaces
      change s.Spelled (['0'] ++ '.' :: (List.replicate _ '0' ++ s.digitChars))
      refine .of_point (.inl rfl) (List.forall_mem_append.mpr ⟨hzeros _, hdigits⟩)
        (List.append_ne_nil_of_right_ne_nil _ (List.length_pos_iff.mp hlength)) 0 ?_ ?_
      · rw [natOf_append, natOf_append, natOf_zeros, hnatOf]
        simp [natOf, digitValue]
      · rw [List.length_append, List.length_replicate]
        omega

theorem powerOf_written (e : Int) :
    powerOf ((if e < 0 then ['e', '-'] else ['e', '+']) ++ Nat.toDigits 10 e.natAbs) = e := by
  split
  · have hpower : powerOf ('e' :: '-' :: Nat.toDigits 10 e.natAbs) = -natOf (Nat.toDigits 10 e.natAbs) := rfl
    rw [List.cons_append, List.cons_append, List.nil_append, hpower, natOf_toDigits]
    omega
  · have hpower : powerOf ('e' :: '+' :: Nat.toDigits 10 e.natAbs) = natOf (Nat.toDigits 10 e.natAbs) := rfl
    rw [List.cons_append, List.cons_append, List.nil_append, hpower, natOf_toDigits]
    omega

theorem isPower_written (e : Int) :
    Parts.IsPower ((if e < 0 then ['e', '-'] else ['e', '+']) ++ Nat.toDigits 10 e.natAbs) := by
  have hne : Nat.toDigits 10 e.natAbs ≠ [] := List.length_pos_iff.mp Nat.length_toDigits_pos
  split
  · exact .inr ⟨'-', _, .inr rfl, hne, isDigit_toDigits _, rfl⟩
  · exact .inr ⟨'+', _, .inl rfl, hne, isDigit_toDigits _, rfl⟩

theorem spelled_exponential {s : Scientific} (h : s.digits ≠ 0) : s.Spelled s.exponential := by
  obtain ⟨d, rest, hds, hd, hdigits⟩ : Significant s.digitChars := significant_toDigits h
  have hnatOf : natOf s.digitChars = s.digits := natOf_toDigits s.digits
  have hleading : s.leading = s.exponent + rest.length := by
    rw [leading, hds, List.length_cons]
    omega
  have hmarked : (if s.leading < 0 then ['e', '-'] else ['e', '+']) ++ Nat.toDigits 10 s.leading.natAbs ≠ [] := by
    split <;> exact List.cons_ne_nil _ _
  rw [hds] at hdigits
  have hspelled := Spelled.of_parts (s := s) (.inr ⟨d, [], rfl, hd, by simpa using hdigits d (.head _)⟩)
    (fun c hc => hdigits c (.tail _ hc)) (isPower_written s.leading) (.inr hmarked) 0
    (by rw [List.singleton_append, ← hds, hnatOf, Nat.pow_zero, Nat.mul_one])
    (by rw [powerOf_written, hleading]; omega)
  rw [exponential, hds]
  cases rest with
  | nil => exact hspelled
  | cons c rest => simpa using hspelled

end Scientific

namespace Binary64

/-- A sign in front of the shortest decimal. -/
theorem text_parts (x : Binary64) : ∃ cs, x.text.toList = x.signChars ++ cs ∧ x.shortest.Spelled cs := by
  have hdigits (h : x.isZero = false) : x.shortest.digits ≠ 0 := by
    intro hzero
    have hpos := (near_shortest h).pos h
    simp [Scientific.value, hzero] at hpos
  simp only [text, String.toList_ofList]
  refine ⟨_, rfl, ?_⟩
  split
  · refine Scientific.spelled_positional ?_
    cases hx : x.isZero with
    | true => exact .inr (by simp [shortest, hx])
    | false => exact .inl (hdigits hx)
  · rename_i hform
    refine Scientific.spelled_exponential (hdigits ?_)
    simpa using fun hx => hform (.inl hx)

theorem text_injective : Function.Injective text := by
  intro x y h
  obtain ⟨cs, hcs, t, rfl, ht⟩ := x.text_parts
  obtain ⟨cs', hcs', t', rfl, ht'⟩ := y.text_parts
  have hchars : x.signChars ++ t.text = y.signChars ++ t'.text := by rw [← hcs, ← hcs', h]
  have hsign : x.negative = y.negative ∧ t.text = t'.text := by
    obtain ⟨d, rest, htext, hd⟩ := t.opens
    obtain ⟨d', rest', htext', hd'⟩ := t'.opens
    rw [signChars, signChars, htext, htext'] at hchars
    rw [htext, htext', ← Bool.coe_iff_coe]
    exact signed_inj hd hd' hchars
  have hvalue : x.shortest.value = y.shortest.value := by
    rw [← ht, ← ht', ← t.decimalOf_text, hsign.2, t'.decimalOf_text]
  have hordinal := ordinal_eq_of_shortest hvalue
  obtain ⟨negative, ordinal, _⟩ := x
  obtain ⟨negative', ordinal', _⟩ := y
  cases hsign.1
  cases hordinal
  rfl

end Binary64

end EventIntake.Decimal
