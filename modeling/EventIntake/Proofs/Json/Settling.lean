import EventIntake.Proofs.Json.Accepting

/-! Numbers, texts and the complaints about a value of another kind do not depend on what comes behind: a token is read to
its end, or refused for the same fault. -/
namespace EventIntake.Json
open Decimal Grammar

/-- Whatever comes behind a piece, it is read to its end with one result, or refused for one fault. -/
def Settles {α : Type} (read : Reader α) (cs : List Char) : Prop :=
  ∃ result : Except Fault α, ∀ {rest}, Apart rest → read (cs ++ rest) = (fun a => (a, rest)) <$> result

theorem Settles.map {α β : Type} {read : Reader α} {cs : List Char} (h : Settles read cs) (f : α → β) :
    Settles (fun cs => do let (a, rest) ← read cs; .ok (f a, rest)) cs := by
  obtain ⟨result, hresult⟩ := h
  refine ⟨f <$> result, fun hr => ?_⟩
  simp only [hresult hr]
  cases result <;> rfl

/-! ### Numbers -/

theorem splitSign_digits {sign ds : List Char} (hsign : sign = [] ∨ sign = ['+'] ∨ sign = ['-']) (hds : Digits ds) :
    ∃ down, ∀ rest, splitSign (sign ++ (ds ++ rest)) = (down, ds ++ rest) := by
  rcases hsign with rfl | rfl | rfl
  · obtain ⟨hne, hdigits⟩ := hds
    obtain ⟨d, ds, rfl⟩ := List.exists_cons_of_ne_nil hne
    have hd := hdigits d (.head _)
    refine ⟨false, fun rest => ?_⟩
    rw [List.nil_append, List.cons_append, splitSign.eq_def]
    split
    · rename_i he
      cases he
      exact absurd hd (by decide)
    · rename_i he
      cases he
      exact absurd hd (by decide)
    · rfl
  · exact ⟨false, fun _ => rfl⟩
  · exact ⟨true, fun _ => rfl⟩

theorem exponentPart_settles (negative : Bool) (significand : Nat) (start : Int) {sign ds : List Char}
    (hsign : sign = [] ∨ sign = ['+'] ∨ sign = ['-']) (hds : Digits ds) :
    Settles (exponentPart negative significand start) (sign ++ ds) := by
  obtain ⟨down, hsplit⟩ := splitSign_digits hsign hds
  obtain ⟨hne, hdigits⟩ := hds
  have hempty : ds.isEmpty = false := by simpa using hne
  refine ⟨if Int32.maxValue.toInt < natOf ds then
      if significand ≠ 0 ∧ !down then .error .numberRange else .ok (.real (Binary64.zero negative))
    else realOf negative significand (start + signed down (natOf ds)), fun {rest} hr => ?_⟩
  obtain ⟨htake, hdrop⟩ := span_digits hdigits fun c hc => (hr.not_point c hc).1
  simp only [exponentPart, List.append_assoc, hsplit, htake, hdrop, hempty, Bool.false_eq_true, if_false]
  split_ifs
  · rfl
  · rfl
  · cases realOf negative significand (start + signed down (natOf ds)) <;> rfl

theorem exponentOrEnd_settles (negative : Bool) (significand : Nat) (exponent : Int) {spelled : List Char}
    (h : Exponent spelled) : Settles (exponentOrEnd negative significand exponent) spelled := by
  rcases h with rfl | ⟨mark, sign, ds, hmark, hsign, hds, rfl⟩
  · refine ⟨realOf negative significand exponent, fun {rest} hr => ?_⟩
    rw [List.nil_append, exponentOrEnd.eq_def]
    split
    · exact absurd rfl hr.not_continuing.2.2.1
    · exact absurd rfl hr.not_continuing.2.2.2
    · cases realOf negative significand exponent <;> rfl
  · obtain ⟨result, hresult⟩ := exponentPart_settles negative significand exponent hsign hds
    rcases hmark with rfl | rfl
    · exact ⟨result, hresult⟩
    · exact ⟨result, hresult⟩

theorem Grammar.Exponent.not_point {exponent rest : List Char} (h : Exponent exponent) (hr : Apart rest) :
    ∀ c ∈ (exponent ++ rest).head?, isDigit c = false ∧ c ≠ '.' := by
  rcases h with rfl | ⟨mark, sign, ds, rfl | rfl, _, _, rfl⟩
  · exact hr.not_point
  · rintro _ ⟨⟩
    decide
  · rintro _ ⟨⟩
    decide

theorem fractionPart_settles (negative : Bool) (significand start : Nat) {ds exponent : List Char} (hds : Digits ds)
    (he : Exponent exponent) : Settles (fractionPart negative significand start) (ds ++ exponent) := by
  obtain ⟨hne, hdigits⟩ := hds
  have hempty : ds.isEmpty = false := by simpa using hne
  obtain ⟨result, hresult⟩ := exponentOrEnd_settles negative (gather significand ds).1
    ((start : Int) - (ds.length - (gather significand ds).2 : Nat)) he
  refine ⟨result, fun {rest} hr => ?_⟩
  obtain ⟨htake, hdrop⟩ := span_digits hdigits fun c hc => (he.not_point hr c hc).1
  simp only [fractionPart, List.append_assoc, htake, hdrop, hempty]
  exact hresult hr

theorem unsigned_point (negative : Bool) {whole : List Char} (hw : Whole whole) (rest : List Char) :
    unsigned negative (whole ++ '.' :: rest) = fractionPart negative (gather 0 whole).1 (gather 0 whole).2 rest := by
  rcases hw with rfl | ⟨⟨hne, hdigits⟩, hzero⟩
  · rfl
  · obtain ⟨d, ds, rfl⟩ := List.exists_cons_of_ne_nil hne
    obtain ⟨hd, hds⟩ := List.forall_mem_cons.mp hdigits
    have hnot : d ≠ '0' := by simpa using hzero
    have hpoint : ∀ c ∈ ('.' :: rest).head?, isDigit c = false := by
      rintro _ ⟨⟩
      rfl
    obtain ⟨htake, hdrop⟩ := span_digits hds hpoint
    simp [unsigned, hd, hnot, htake, hdrop]

/-- Without a fraction a number is read up to its exponent, or is a whole one. -/
theorem unsigned_whole (negative : Bool) {whole tail : List Char} (hw : Whole whole)
    (htail : ∀ c ∈ tail.head?, isDigit c = false ∧ c ≠ '.') :
    unsigned negative (whole ++ tail) =
      if (gather 0 whole).2 ≠ 0 ∨ tail.head? = some 'e' ∨ tail.head? = some 'E' then
        exponentOrEnd negative (gather 0 whole).1 (gather 0 whole).2 tail
      else .ok (unsigned.wholeOf negative (gather 0 whole).1, tail) := by
  have hspan : ∀ {ds : List Char}, (∀ c ∈ ds, isDigit c = true) →
      (ds ++ tail).takeWhile isDigit = ds ∧ (ds ++ tail).dropWhile isDigit = tail :=
    fun hds => span_digits hds fun c hc => (htail c hc).1
  rcases hw with rfl | ⟨⟨hne, hdigits⟩, hzero⟩
  · have hdigit : isDigit '0' = true := rfl
    cases tail with
    | nil => simp [unsigned, hdigit]
    | cons c cs =>
      obtain ⟨hc, hpoint⟩ := htail c rfl
      simp [unsigned, hdigit, hc]
  · obtain ⟨d, ds, rfl⟩ := List.exists_cons_of_ne_nil hne
    obtain ⟨hd, hds⟩ := List.forall_mem_cons.mp hdigits
    have hnot : d ≠ '0' := by simpa using hzero
    obtain ⟨htake, hdrop⟩ := hspan hds
    cases tail with
    | nil =>
      rw [List.append_nil] at htake hdrop
      simp [unsigned, hd, hnot, htake, hdrop]
    | cons c cs =>
      obtain ⟨_, hpoint⟩ := htail c rfl
      simp [unsigned, hd, hnot, htake, hdrop]

theorem unsigned_settles (negative : Bool) {whole fraction exponent : List Char} (hw : Whole whole)
    (hf : Fraction fraction) (he : Exponent exponent) : Settles (unsigned negative) (whole ++ (fraction ++ exponent)) := by
  rcases hf with rfl | ⟨ds, hds, rfl⟩
  · have hwhole {rest : List Char} (hr : Apart rest) := unsigned_whole negative hw (he.not_point hr)
    by_cases hlong : (gather 0 whole).2 ≠ 0 ∨ exponent ≠ []
    · obtain ⟨result, hresult⟩ := exponentOrEnd_settles negative (gather 0 whole).1 (gather 0 whole).2 he
      refine ⟨result, fun {rest} hr => ?_⟩
      rw [← hresult hr, List.nil_append, List.append_assoc, hwhole hr]
      refine if_pos (hlong.imp_right fun hne => ?_)
      rcases he with rfl | ⟨mark, sign, ds, rfl | rfl, _, _, rfl⟩
      · exact absurd rfl hne
      · exact .inl rfl
      · exact .inr rfl
    · obtain ⟨hleft, rfl⟩ : (gather 0 whole).2 = 0 ∧ exponent = [] := by simpa using hlong
      refine ⟨.ok (unsigned.wholeOf negative (gather 0 whole).1), fun {rest} hr => ?_⟩
      have hmark : rest.head? ≠ some 'e' ∧ rest.head? ≠ some 'E' := by
        cases rest with
        | nil => simp
        | cons c cs => simpa using hr.not_continuing.2.2
      rw [List.append_nil, List.append_nil, ← List.nil_append rest, hwhole hr, List.nil_append,
        if_neg (by simp [hleft, hmark])]
      rfl
  · obtain ⟨result, hresult⟩ := fractionPart_settles negative (gather 0 whole).1 (gather 0 whole).2 hds he
    refine ⟨result, fun {rest} hr => ?_⟩
    rw [← hresult hr, List.append_assoc, List.cons_append, List.cons_append, unsigned_point negative hw]

theorem number_settles {cs : List Char} (h : Numeral cs) : Settles number cs := by
  obtain ⟨sign, whole, fraction, exponent, rfl | rfl, hw, hf, he, rfl⟩ := h
  · obtain ⟨result, hresult⟩ := unsigned_settles false hw hf he
    refine ⟨result, fun {rest} hr => ?_⟩
    rw [← hresult hr, List.nil_append, number]
    obtain ⟨c, ds, rfl, hc⟩ := hw.head
    rintro cs ⟨⟩
    exact absurd hc (by decide)
  · obtain ⟨result, hresult⟩ := unsigned_settles true hw hf he
    exact ⟨result, hresult⟩

/-! ### Texts -/

/-- The body of a text is read from the place of a character or of the second unit of a pair. -/
theorem textFrom_body {body : List Char} (h : Body body) {p : Progress} (hp : p = .plain ∨ ∃ high, p = .paired high)
    (done : List Char) :
    ∃ result : Except Fault String, ∀ rest, textFrom p done (body ++ '"' :: rest) = (fun s => (s, rest)) <$> result := by
  -- A high unit leads from the first place to the second. There anything but a low unit is refused at once.
  induction h generalizing p done with
  | nil =>
    rcases hp with rfl | ⟨high, rfl⟩
    · exact ⟨.ok (String.ofList done.reverse), fun _ => rfl⟩
    · exact ⟨.error .openSurrogate, fun _ => rfl⟩
  | @plain c body hquote hback hcontrol _ ih =>
    rcases hp with rfl | ⟨high, rfl⟩
    · obtain ⟨result, hresult⟩ := ih (.inl rfl) (c :: done)
      refine ⟨result, fun rest => ?_⟩
      rw [← hresult rest, List.cons_append, textFrom, if_neg hquote, if_neg hback, if_neg (Nat.not_lt.mpr hcontrol)]
    · refine ⟨.error .openSurrogate, fun rest => ?_⟩
      rw [List.cons_append, textFrom, if_neg hback]
      rfl
  | @short e body he _ ih =>
    have hu : e ≠ 'u' := by
      rintro rfl
      cases he
    obtain ⟨c, hc⟩ := Option.isSome_iff_exists.mp he
    rcases hp with rfl | ⟨high, rfl⟩
    · obtain ⟨result, hresult⟩ := ih (.inl rfl) (c :: done)
      refine ⟨result, fun rest => ?_⟩
      simp [← hresult rest, textFrom, hu, hc]
    · refine ⟨.error .openSurrogate, fun rest => ?_⟩
      simp [textFrom, hu]
  | @unit ds body n hds _ ih =>
    rcases hp with rfl | ⟨high, rfl⟩
    · have hstart (rest : List Char) : textFrom .plain done ('\\' :: 'u' :: (ds ++ body) ++ '"' :: rest) =
          textFrom (.unit none 4 0) done (ds ++ (body ++ '"' :: rest)) := by
        simp [textFrom, hds.fourBytes]
      simp only [hstart, hds.textFrom]
      split_ifs
      · exact ⟨.error .loneSurrogate, fun _ => rfl⟩
      · exact ih (.inr ⟨n, rfl⟩) done
      · exact ih (.inl rfl) (Char.ofNat n :: done)
    · have hstart (rest : List Char) : textFrom (.paired high) done ('\\' :: 'u' :: (ds ++ body) ++ '"' :: rest) =
          textFrom (.unit (some high) 4 0) done (ds ++ (body ++ '"' :: rest)) := by
        simp [textFrom, hds.fourBytes]
      simp only [hstart, hds.textFrom]
      split_ifs
      · exact ih (.inl rfl) (joinUnits high n :: done)
      · exact ⟨.error .loneSurrogate, fun _ => rfl⟩

/-- A text is read off, or refused for one fault. -/
theorem text_body {body : List Char} (h : Body body) :
    ∃ result : Except Fault String, ∀ rest, text (body ++ '"' :: rest) = (fun s => (s, rest)) <$> result :=
  textFrom_body h (.inl rfl) []

/-! ### First characters -/

namespace Grammar
variable {cs inside : List Char}

theorem Valid.quoted (h : Valid ('"' :: inside)) : ∃ body, Body body ∧ inside = body ++ ['"'] := by
  cases h with
  | number h =>
    obtain ⟨_, _, ⟨⟩, hc⟩ := h.head
    exact absurd hc (by decide)
  | text h =>
    obtain ⟨body, hbody, ⟨⟩⟩ := h
    exact ⟨body, hbody, rfl⟩

theorem Valid.numeral {c : Char} (h : Valid (c :: inside)) (hc : c = '-' ∨ isDigit c = true) : Numeral (c :: inside) := by
  cases h with
  | number h => exact h
  | text h =>
    obtain ⟨_, _, ⟨⟩⟩ := h
    exact absurd hc (by decide)
  | _ => exact absurd hc (by decide)

theorem Valid.bracketed (h : Valid ('[' :: inside)) : ∃ cs, Upcoming .items true cs ∧ inside = cs ++ [']'] := by
  cases h with
  | number h =>
    obtain ⟨_, _, ⟨⟩, hc⟩ := h.head
    exact absurd hc (by decide)
  | text h => obtain ⟨_, _, ⟨⟩⟩ := h
  | noItems h => exact ⟨_, .inl h, rfl⟩
  | list h => exact ⟨_, .inr h, rfl⟩

theorem Valid.braced (h : Valid ('{' :: inside)) : ∃ cs, Upcoming .members true cs ∧ inside = cs ++ ['}'] := by
  cases h with
  | number h =>
    obtain ⟨_, _, ⟨⟩, hc⟩ := h.head
    exact absurd hc (by decide)
  | text h => obtain ⟨_, _, ⟨⟩⟩ := h
  | noMembers h => exact ⟨_, .inl h, rfl⟩
  | object h => exact ⟨_, .inr h, rfl⟩

theorem Valid.ne_comma {c : Char} (h : Valid (c :: inside)) : c ≠ ',' := by
  rintro rfl
  cases h with
  | number h =>
    obtain ⟨_, _, ⟨⟩, hc⟩ := h.head
    exact absurd hc (by decide)
  | text h => obtain ⟨_, _, ⟨⟩⟩ := h

end Grammar

/-- A value of another kind is named without what comes behind it. -/
theorem mismatch_append {cs rest : List Char} (want : String) (h : Valid cs) (hr : Apart rest) :
    mismatch want (cs ++ rest) = mismatch want cs := by
  have hfound : mismatch.found (cs ++ rest) = mismatch.found cs := by
    cases h with
    | null => rfl
    | true => rfl
    | false => rfl
    | noItems | list => rfl
    | noMembers | object => rfl
    | text h =>
      obtain ⟨body, hbody, rfl⟩ := h
      obtain ⟨result, hresult⟩ := text_body hbody
      simp only [mismatch.found, List.cons_append, List.append_assoc, List.nil_append, hresult]
      cases result <;> rfl
    | number h =>
      obtain ⟨result, hresult⟩ := number_settles h
      have hlong := hresult hr
      have hshort := hresult apart_nil
      rw [List.append_nil] at hshort
      obtain ⟨c, tail, rfl, hc⟩ := h.head
      have hother : c ≠ 'n' ∧ c ≠ 't' ∧ c ≠ 'f' ∧ c ≠ '"' := by
        refine ⟨?_, ?_, ?_, ?_⟩ <;> rintro rfl <;> exact absurd hc (by decide)
      rw [List.cons_append] at hlong ⊢
      simp only [mismatch.found, hother, if_false, hc, if_true, hlong, hshort]
      cases result <;> rfl
  rw [mismatch, mismatch, hfound]

end EventIntake.Json
