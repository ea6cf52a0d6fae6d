import EventIntake.Json.Lexical
import EventIntake.Proofs.Decimal.Digits
import EventIntake.Proofs.Text.Hex
import Mathlib.Tactic.SplitIfs

/-! How the tokens of JSON may be spelled. Each spelling is read as what it stands for. -/
namespace EventIntake.Json
open Decimal

/-! ### Blanks -/

def Blanks (cs : List Char) : Prop := ∀ c ∈ cs, isBlank c = true

/-- What may follow a value: nothing that could be read as part of a number. -/
def Apart (rest : List Char) : Prop := ∀ c ∈ rest.head?, isBlank c = true ∨ c = ',' ∨ c = ']' ∨ c = '}'

theorem blanks_nil : Blanks [] := by simp [Blanks]

theorem skipBlank_append {blanks : List Char} (h : Blanks blanks) (cs : List Char) :
    skipBlank (blanks ++ cs) = skipBlank cs :=
  List.dropWhile_append_of_pos h

theorem skipBlank_cons {c : Char} (h : isBlank c = false) (cs : List Char) : skipBlank (c :: cs) = c :: cs := by
  simp [skipBlank, h]

theorem skipBlank_blanks {blanks : List Char} (h : Blanks blanks) : skipBlank blanks = [] :=
  (List.append_nil blanks ▸ skipBlank_append h [] :)

theorem isBlank_digit {c : Char} (h : isDigit c = true) : isBlank c = false := by
  have hblank : ∀ b, isBlank b = true → isDigit b = false := by
    intro b hb
    simp only [isBlank, Bool.or_eq_true, beq_iff_eq] at hb
    rcases hb with ((rfl | rfl) | rfl) | rfl <;> rfl
  cases hc : isBlank c with
  | false => rfl
  | true => exact absurd h (Bool.eq_false_iff.mp (hblank c hc))

theorem apart_nil : Apart [] := by simp [Apart]

theorem apart_cons {c : Char} (h : isBlank c = true ∨ c = ',' ∨ c = ']' ∨ c = '}') (cs : List Char) :
    Apart (c :: cs) := by
  simpa [Apart] using h

theorem Blanks.apart {blanks rest : List Char} (h : Blanks blanks) (hrest : Apart rest) :
    Apart (blanks ++ rest) := by
  cases blanks with
  | nil => exact hrest
  | cons c cs => exact apart_cons (.inl (h c (.head _))) _

/-- What follows a number does not continue it. -/
theorem Apart.not_continuing {c : Char} {cs : List Char} (h : Apart (c :: cs)) :
    isDigit c = false ∧ c ≠ '.' ∧ c ≠ 'e' ∧ c ≠ 'E' := by
  rcases h c rfl with hb | rfl | rfl | rfl
  · simp only [isBlank, Bool.or_eq_true, beq_iff_eq] at hb
    rcases hb with ((rfl | rfl) | rfl) | rfl <;> decide
  · decide
  · decide
  · decide

theorem Apart.not_point {rest : List Char} (h : Apart rest) : ∀ c ∈ rest.head?, isDigit c = false ∧ c ≠ '.' := by
  intro c hc
  obtain ⟨tail, rfl⟩ := List.head?_eq_some_iff.mp hc
  exact ⟨h.not_continuing.1, h.not_continuing.2.1⟩

/-! ### Texts -/

/-- Four hexadecimal digits and their value. -/
inductive HexUnit : List Char → Nat → Prop
  | of {a b c d : Char} {w x y z : Nat} :
      Text.Hex.digit? a = some w → Text.Hex.digit? b = some x → Text.Hex.digit? c = some y →
      Text.Hex.digit? d = some z → HexUnit [a, b, c, d] (16 * (16 * (16 * w + x) + y) + z)

/-- What stands between the quotes of a text, and the characters that it spells: as they are, by a short escape, or
by one or two UTF-16 units. -/
inductive Spells : List Char → List Char → Prop
  | nil : Spells [] []
  | plain {c : Char} {body cs : List Char} :
      c ≠ '"' → c ≠ '\\' → 0x20 ≤ c.toNat → Spells body cs → Spells (c :: body) (c :: cs)
  | short {e c : Char} {body cs : List Char} :
      shortEscape? e = some c → Spells body cs → Spells ('\\' :: e :: body) (c :: cs)
  | unit {ds body cs : List Char} {n : Nat} :
      HexUnit ds n → isHighUnit n = false → isLowUnit n = false → Spells body cs →
      Spells ('\\' :: 'u' :: (ds ++ body)) (Char.ofNat n :: cs)
  | pair {ds es body cs : List Char} {high low : Nat} :
      HexUnit ds high → isHighUnit high = true → HexUnit es low → isLowUnit low = true → Spells body cs →
      Spells ('\\' :: 'u' :: (ds ++ '\\' :: 'u' :: (es ++ body))) (joinUnits high low :: cs)

theorem HexUnit.fourBytes {ds : List Char} {n : Nat} (h : HexUnit ds n) (rest : List Char) :
    fourBytes (ds ++ rest) = true := by
  obtain @⟨a, b, c, d, _, _, _, _, _, _, _, _⟩ := h
  have ha := a.utf8Size_pos
  have hb := b.utf8Size_pos
  have hc := c.utf8Size_pos
  have hd := d.utf8Size_pos
  simp [Json.fourBytes]
  omega

theorem HexUnit.textFrom {ds : List Char} {n : Nat} (h : HexUnit ds n) (high : Option Nat)
    (done rest : List Char) :
    textFrom (.unit high 4 0) done (ds ++ rest) =
      match high with
      | none =>
        if isLowUnit n then .error .loneSurrogate
        else if isHighUnit n then Json.textFrom (.paired n) done rest
        else Json.textFrom .plain (Char.ofNat n :: done) rest
      | some first =>
        if isLowUnit n then Json.textFrom .plain (joinUnits first n :: done) rest
        else .error .loneSurrogate := by
  obtain ⟨ha, hb, hc, hd⟩ := h
  cases high <;> simp [Json.textFrom, ha, hb, hc, hd]

theorem Spells.textFrom {body cs : List Char} (h : Spells body cs) (done rest : List Char) :
    textFrom .plain done (body ++ '"' :: rest) = .ok (String.ofList (done.reverse ++ cs), rest) := by
  induction h generalizing done with
  | nil => simp [Json.textFrom]
  | plain hq hb hc _ ih =>
    rw [List.cons_append, Json.textFrom, if_neg hq, if_neg hb, if_neg (Nat.not_lt.mpr hc), ih]
    simp
  | @short e c body cs he _ ih =>
    have hu : e ≠ 'u' := by
      rintro rfl
      cases he
    simp only [List.cons_append, Json.textFrom, he, ih, if_neg hu]
    simp
  | unit hds hhigh hlow _ ih =>
    simp only [List.cons_append, List.append_assoc, Json.textFrom, hds.fourBytes, hds.textFrom, hhigh, hlow, ih]
    simp
  | @pair ds es body cs high low hds hhigh hes hlow _ ih =>
    have hnot : isLowUnit high = false := by
      simp only [isHighUnit, Bool.and_eq_true, decide_eq_true_eq] at hhigh
      simp only [isLowUnit, Bool.and_eq_false_iff, decide_eq_false_iff_not]
      omega
    simp only [List.cons_append, List.append_assoc, Json.textFrom, hds.fourBytes, hds.textFrom, hes.fourBytes,
      hes.textFrom, hhigh, hlow, ih]
    simp [hnot]

theorem Spells.text {body : List Char} {s : String} (h : Spells body s.toList) (rest : List Char) :
    text (body ++ '"' :: rest) = .ok (s, rest) := by
  rw [Json.text, h.textFrom, List.reverse_nil, List.nil_append, String.ofList_toList]

theorem Spells.escape {body cs : List Char} (c : Char) (h : Spells body cs) : Spells (escape c ++ body) (c :: cs) := by
  have hof {n : Nat} (hn : c.toNat = n) : Char.ofNat n = c := by rw [← hn, Char.ofNat_toNat]
  rw [Json.escape]
  split_ifs with hquote hback hplain hbs hff hnl hcr htab
  · subst hquote
    exact .short rfl h
  · subst hback
    exact .short rfl h
  · exact .plain hquote hback hplain h
  · exact .short (hof hbs ▸ rfl) h
  · exact .short (hof hff ▸ rfl) h
  · exact .short (hnl ▸ rfl) h
  · exact .short (hcr ▸ rfl) h
  · exact .short (htab ▸ rfl) h
  · have hunit : HexUnit ['0', '0', Text.Hex.digitChar (c.toNat / 16), Text.Hex.digitChar (c.toNat % 16)] c.toNat := by
      have hvalue : c.toNat = 16 * (16 * (16 * 0 + 0) + c.toNat / 16) + c.toNat % 16 := by omega
      have hhigh := Text.Hex.digit?_digitChar (c.toNat / 16) (by omega)
      have hlow := Text.Hex.digit?_digitChar (c.toNat % 16) (by omega)
      have hzero : Text.Hex.digit? '0' = some 0 := rfl
      have hunit := HexUnit.of hzero hzero hhigh hlow
      rwa [← hvalue] at hunit
    have hspells := Spells.unit hunit (by simp [isHighUnit]; omega) (by simp [isLowUnit]; omega) h
    rwa [hof rfl] at hspells

/-- A text is spelled the way it is written. -/
theorem spells_written (s : List Char) : Spells (s.flatMap Json.escape) s := by
  induction s with
  | nil => exact .nil
  | cons c cs ih => exact ih.escape c

/-! ### Numbers -/

private theorem le_foldl (ds : List Char) (n : Nat) : n ≤ ds.foldl (fun n d => 10 * n + digitValue d) n := by
  induction ds generalizing n with
  | nil => exact Nat.le_refl n
  | cons d ds ih =>
    have hnext : n ≤ 10 * n + digitValue d := by omega
    exact Nat.le_trans hnext (ih _)

theorem gather_eq {ds : List Char} {n : Nat} (h : ds.foldl (fun n d => 10 * n + digitValue d) n < UInt64.size) :
    gather n ds = (ds.foldl (fun n d => 10 * n + digitValue d) n, 0) := by
  induction ds generalizing n with
  | nil => rfl
  | cons d ds ih =>
    have hnext : 10 * n + digitValue d < UInt64.size := Nat.lt_of_le_of_lt (le_foldl ds _) h
    rw [gather, if_pos hnext, ih h]
    rfl

theorem unsigned_toString (negative : Bool) {n : Nat} (hn : n < UInt64.size) {rest : List Char} (h : Apart rest) :
    unsigned negative ((toString n).toList ++ rest) = .ok (unsigned.wholeOf negative n, rest) := by
  have hgather : gather 0 (toString n).toList = (n, 0) := by
    have hvalue : (toString n).toList.foldl (fun n d => 10 * n + digitValue d) 0 = n := natOf_toString n
    rw [gather_eq (hvalue.symm ▸ hn), hvalue]
  have hdigits := List.all_eq_true.mp (isDigit_toString n)
  rcases toString_cases n with ⟨_, hs⟩ | ⟨d, ds, hs, hd, hdigit⟩
  · have hzero : isDigit '0' = true := rfl
    rw [hs] at hgather ⊢
    cases rest with
    | nil => simp [unsigned, hgather, hzero]
    | cons c cs =>
      obtain ⟨hc, _, hsmall, hlarge⟩ := h.not_continuing
      simp [unsigned, hgather, hzero, hc, hsmall, hlarge]
  · rw [hs] at hgather hdigits ⊢
    have hds : ∀ c ∈ ds, isDigit c = true := fun c hc => hdigits c (.tail _ hc)
    obtain ⟨htake, hdrop⟩ := span_digits hds fun c hc => (h.not_point c hc).1
    simp only [List.cons_append, unsigned, hdigit, hd, htake, hdrop, hgather, Bool.not_true, Bool.false_eq_true, if_false]
    cases rest with
    | nil => simp
    | cons c cs =>
      obtain ⟨_, _, hsmall, hlarge⟩ := h.not_continuing
      simp [hsmall, hlarge]

/-- A whole number of up to 64 bits is read in its decimal spelling. -/
theorem number_toString {n : Int} (hlow : Int64.minValue.toInt ≤ n) (hhigh : n < UInt64.size) {rest : List Char}
    (h : Apart rest) : number ((toString n).toList ++ rest) = .ok (.whole n, rest) := by
  have hmin : Int64.minValue.toInt = -9223372036854775808 := rfl
  have hsize : UInt64.size = 18446744073709551616 := rfl
  have habs : n.natAbs < UInt64.size := by omega
  rw [toString_eq]
  split
  · rename_i hneg
    have hfits : ¬(n.natAbs = 0 ∨ signed true n.natAbs < Int64.minValue.toInt) := by
      rw [signed, if_pos rfl]
      omega
    have hwhole : unsigned.wholeOf true n.natAbs = .whole n := by
      rw [unsigned.wholeOf, if_neg (by decide), if_neg hfits, Int.ofNat_natAbs_of_nonpos (by omega), Int.neg_neg]
    rw [List.append_assoc, List.singleton_append, number, unsigned_toString true habs h, hwhole]
  · rename_i hpos
    have hwhole : unsigned.wholeOf false n.natAbs = .whole n := by
      rw [unsigned.wholeOf, if_pos (by decide), Int.natAbs_of_nonneg (by omega)]
    have hunsigned := unsigned_toString false habs h
    rw [List.nil_append, number, hunsigned, hwhole]
    intro cs hcs
    have hminus : '-' ∈ (toString n.natAbs).toList := by
      rcases toString_cases n.natAbs with ⟨_, hs⟩ | ⟨d, ds, hs, _⟩ <;> rw [hs] at hcs ⊢ <;> cases hcs
      exact .head _
    exact absurd (List.all_eq_true.mp (isDigit_toString n.natAbs) _ hminus) (by decide)

end EventIntake.Json
