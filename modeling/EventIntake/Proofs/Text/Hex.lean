import EventIntake.Text.Hex
import Mathlib.Data.List.Induction
import Mathlib.Tactic.Ring

/-! Bytes written in digits are read back, and digits that spell bytes are written again in lower case. -/
namespace EventIntake.Text.Hex

theorem digit?_digitChar : ∀ n < 16, digit? (digitChar n) = some n := by decide

theorem length_encode (bytes : List UInt8) : (encode bytes).length = 2 * bytes.length := by
  induction bytes with
  | nil => rfl
  | cons b rest ih =>
    rw [encode, List.flatMap_cons, List.length_append, ← encode, ih]
    simp only [List.length_cons, List.length_nil]
    omega

theorem decode_encode (bytes : List UInt8) : decode (encode bytes) = some bytes := by
  induction bytes with
  | nil => rfl
  | cons b rest ih =>
    have hb := b.toNat_lt
    have hhigh := digit?_digitChar (b.toNat / 16) (by omega)
    have hlow := digit?_digitChar (b.toNat % 16) (by omega)
    have hhalves : UInt8.ofNat (16 * (b.toNat / 16) + b.toNat % 16) = b := by
      rw [Nat.div_add_mod, UInt8.ofNat_toNat]
    have hencode : encode (b :: rest) = digitChar (b.toNat / 16) :: digitChar (b.toNat % 16) :: encode rest := rfl
    simp only [hencode, decode, hhigh, hlow, ih, Option.bind_eq_bind, Option.bind_some, hhalves]

/-! ### Digits of either case -/

/-- A digit of either case. -/
def IsDigit (c : Char) : Prop := ('0' ≤ c ∧ c ≤ '9') ∨ ('a' ≤ c ∧ c ≤ 'f') ∨ ('A' ≤ c ∧ c ≤ 'F')

instance : DecidablePred IsDigit := fun c =>
  inferInstanceAs (Decidable (('0' ≤ c ∧ c ≤ '9') ∨ ('a' ≤ c ∧ c ≤ 'f') ∨ ('A' ≤ c ∧ c ≤ 'F')))

theorem isSome_digit?_iff {c : Char} : (digit? c).isSome ↔ IsDigit c := by
  simp only [digit?, IsDigit]
  split_ifs <;> simp_all

theorem IsDigit.exists_value {c : Char} (h : IsDigit c) :
    ∃ n < 16, digit? c = some n ∧ digitChar n = c.toLower := by
  have hlt : c.toNat < 103 := by
    have hle : c ≤ 'f' := by
      rcases h with h | h | h
      · exact Char.le_trans h.2 (by decide)
      · exact h.2
      · exact Char.le_trans h.2 (by decide)
    exact Nat.lt_succ_of_le hle
  have hall : ∀ k < 103, ∀ n ∈ digit? (Char.ofNat k), n < 16 ∧ digitChar n = (Char.ofNat k).toLower := by decide
  obtain ⟨n, hn⟩ := Option.isSome_iff_exists.mp (isSome_digit?_iff.mpr h)
  have hc := hall c.toNat hlt n
  rw [Char.ofNat_toNat] at hc
  exact ⟨n, (hc hn).1, hn, (hc hn).2⟩

/-! ### The bytes of digits -/

theorem decode_eq_none {ds : List Char} (h : ¬ ∀ c ∈ ds, IsDigit c) : decode ds = none := by
  induction ds using decode.induct with
  | case1 => simp at h
  | case2 => rfl
  | case3 a b rest ih =>
    simp only [List.forall_mem_cons, ← isSome_digit?_iff] at h ih
    cases ha : digit? a with
    | none => simp [decode, ha]
    | some m =>
      cases hb : digit? b with
      | none => simp [decode, ha, hb]
      | some n => simp [decode, ha, hb, ih (by simpa [ha, hb] using h)]

/-- Digits of bytes are written again in lower case. -/
theorem exists_decode {ds : List Char} (h : ∀ c ∈ ds, IsDigit c) (hl : ds.length % 2 = 0) :
    ∃ bytes, decode ds = some bytes ∧ encode bytes = ds.map Char.toLower := by
  induction ds using decode.induct with
  | case1 => exact ⟨[], rfl, rfl⟩
  | case2 => simp at hl
  | case3 a b rest ih =>
    simp only [List.forall_mem_cons] at h
    obtain ⟨m, hm16, hm, hmchar⟩ := h.1.exists_value
    obtain ⟨n, hn16, hn, hnchar⟩ := h.2.1.exists_value
    obtain ⟨bytes, hdecode, hencode⟩ := ih h.2.2 (by simp only [List.length_cons] at hl; omega)
    have hbyte : (UInt8.ofNat (16 * m + n)).toNat = 16 * m + n :=
      UInt8.toNat_ofNat_of_lt' (Nat.lt_of_lt_of_le (by omega : 16 * m + n < 256) (Nat.le_refl _))
    have hhigh : (16 * m + n) / 16 = m := by omega
    have hlow : (16 * m + n) % 16 = n := by omega
    refine ⟨UInt8.ofNat (16 * m + n) :: bytes, by simp [decode, hm, hn, hdecode], ?_⟩
    rw [encode, List.flatMap_cons, ← encode, hbyte, hhigh, hlow, hmchar, hnchar, hencode]
    rfl

theorem encode_append (bytes more : List UInt8) : encode (bytes ++ more) = encode bytes ++ encode more :=
  List.flatMap_append

theorem encode_zeros (n : Nat) : encode (List.replicate n 0) = List.replicate (2 * n) '0' := by
  induction n with
  | zero => rfl
  | succ n ih =>
    rw [List.replicate_succ, encode, List.flatMap_cons, ← encode, ih]
    rfl

theorem encode_drop (bytes : List UInt8) (n : Nat) : encode (bytes.drop n) = (encode bytes).drop (2 * n) := by
  induction n generalizing bytes with
  | zero => rfl
  | succ n ih =>
    cases bytes with
    | nil => simp [encode]
    | cons b rest => exact ih rest

/-! ### The number that digits spell -/

/-- The number that digits spell; other characters count as zeros. -/
def value (ds : List Char) : Nat := ds.foldl (fun n c => 16 * n + (digit? c).getD 0) 0

theorem value_concat (ds : List Char) (c : Char) : value (ds ++ [c]) = 16 * value ds + (digit? c).getD 0 := by
  rw [value, List.foldl_append]
  rfl

theorem value_append (ds es : List Char) : value (ds ++ es) = value ds * 16 ^ es.length + value es := by
  induction es using List.reverseRecOn with
  | nil => simp [value]
  | append_singleton es c ih =>
    rw [← List.append_assoc, value_concat, ih, value_concat, List.length_append, List.length_singleton, Nat.pow_succ]
    ring

theorem value_lt {ds : List Char} (h : ∀ c ∈ ds, IsDigit c) : value ds < 16 ^ ds.length := by
  induction ds using List.reverseRecOn with
  | nil => exact Nat.one_pos
  | append_singleton ds c ih =>
    rw [List.forall_mem_append] at h
    have hds := ih h.1
    obtain ⟨n, hn16, hn, -⟩ := (h.2 c (by simp)).exists_value
    rw [value_concat, hn, Option.getD_some, List.length_append, List.length_singleton, Nat.pow_succ]
    omega

/-- As many digits spell the same number only if they are the same but for their case. -/
theorem map_toLower_of_value {ds es : List Char} (hds : ∀ c ∈ ds, IsDigit c) (hes : ∀ c ∈ es, IsDigit c)
    (hlength : ds.length = es.length) (h : value ds = value es) : ds.map Char.toLower = es.map Char.toLower := by
  induction ds using List.reverseRecOn generalizing es with
  | nil => rw [List.length_eq_zero_iff.mp hlength.symm]
  | append_singleton ds c ih =>
    obtain rfl | ⟨es, d, rfl⟩ := es.eq_nil_or_concat
    · simp at hlength
    · rw [List.concat_eq_append] at hes hlength h ⊢
      rw [List.forall_mem_append] at hds hes
      obtain ⟨m, hm16, hm, hmchar⟩ := (hds.2 c (by simp)).exists_value
      obtain ⟨n, hn16, hn, hnchar⟩ := (hes.2 d (by simp)).exists_value
      rw [value_concat, value_concat, hm, hn, Option.getD_some, Option.getD_some] at h
      have hlast : m = n := by omega
      have hrest := ih hds.1 hes.1 (by simpa using hlength) (by omega)
      rw [List.map_append, List.map_append, hrest, List.map_singleton, List.map_singleton, ← hmchar, ← hnchar, hlast]

theorem value_map_toLower {ds : List Char} (h : ∀ c ∈ ds, IsDigit c) : value (ds.map Char.toLower) = value ds := by
  induction ds using List.reverseRecOn with
  | nil => rfl
  | append_singleton ds c ih =>
    rw [List.forall_mem_append] at h
    obtain ⟨n, hn16, hn, hchar⟩ := (h.2 c (by simp)).exists_value
    rw [List.map_append, List.map_singleton, value_concat, value_concat, ih h.1, ← hchar, digit?_digitChar n hn16, hn]

end EventIntake.Text.Hex
