import EventIntake.Proofs.Json.Reading
import EventIntake.Proofs.Json.Scanning

/-! What codecs accept is JSON: every reader takes the text of one value off the front, with the blanks before it. -/
namespace EventIntake.Json
open Decimal Grammar

/-! ### Numbers -/

theorem takeWhile_isDigit (cs : List Char) : ∀ c ∈ cs.takeWhile isDigit, isDigit c = true :=
  List.all_eq_true.mp List.all_takeWhile

theorem splitSign_append (cs : List Char) :
    ∃ sign, (sign = [] ∨ sign = ['+'] ∨ sign = ['-']) ∧ cs = sign ++ (splitSign cs).2 := by
  rw [splitSign.eq_def]
  split
  · exact ⟨['-'], by simp, rfl⟩
  · exact ⟨['+'], by simp, rfl⟩
  · exact ⟨[], by simp, rfl⟩

section Number
variable {negative : Bool} {significand : Nat} {x : Number} {cs rest : List Char}

theorem exponentPart_sound {start : Int} (h : exponentPart negative significand start cs = .ok (x, rest)) :
    ∃ sign ds, (sign = [] ∨ sign = ['+'] ∨ sign = ['-']) ∧ Digits ds ∧ cs = sign ++ (ds ++ rest) := by
  obtain ⟨sign, hsign, hcs⟩ := splitSign_append cs
  simp only [exponentPart] at h
  split at h
  · cases h
  · rename_i hne
    have hrest : rest = (splitSign cs).2.dropWhile isDigit := by
      split at h
      · split at h <;> cases h
        rfl
      · obtain ⟨_, _, h⟩ := bind_ok.mp h
        cases h
        rfl
    refine ⟨sign, (splitSign cs).2.takeWhile isDigit, hsign, ⟨?_, takeWhile_isDigit _⟩, ?_⟩
    · simpa using hne
    · rw [hrest, List.takeWhile_append_dropWhile]
      exact hcs

theorem exponentOrEnd_sound {exponent : Int} (h : exponentOrEnd negative significand exponent cs = .ok (x, rest)) :
    ∃ spelled, Exponent spelled ∧ cs = spelled ++ rest := by
  rw [exponentOrEnd.eq_def] at h
  split at h
  · obtain ⟨sign, ds, hsign, hds, rfl⟩ := exponentPart_sound h
    exact ⟨'e' :: (sign ++ ds), .inr ⟨'e', sign, ds, .inl rfl, hsign, hds, rfl⟩, by simp⟩
  · obtain ⟨sign, ds, hsign, hds, rfl⟩ := exponentPart_sound h
    exact ⟨'E' :: (sign ++ ds), .inr ⟨'E', sign, ds, .inr rfl, hsign, hds, rfl⟩, by simp⟩
  · obtain ⟨_, _, h⟩ := bind_ok.mp h
    cases h
    exact ⟨[], .inl rfl, rfl⟩

theorem fractionPart_sound {start : Nat} (h : fractionPart negative significand start cs = .ok (x, rest)) :
    ∃ ds exponent, Digits ds ∧ Exponent exponent ∧ cs = ds ++ (exponent ++ rest) := by
  simp only [fractionPart] at h
  split at h
  · cases h
  · rename_i hne
    obtain ⟨exponent, hexponent, he⟩ := exponentOrEnd_sound h
    refine ⟨cs.takeWhile isDigit, exponent, ⟨by simpa using hne, takeWhile_isDigit cs⟩, hexponent, ?_⟩
    rw [← he, List.takeWhile_append_dropWhile]

theorem unsigned_sound (h : unsigned negative cs = .ok (x, rest)) :
    ∃ whole fraction exponent, Whole whole ∧ Fraction fraction ∧ Exponent exponent ∧
      cs = whole ++ (fraction ++ (exponent ++ rest)) := by
  cases cs with
  | nil => cases h
  | cons c cs =>
    simp only [unsigned] at h
    split at h
    · cases h
    · rename_i hdigit
      have hdigit : isDigit c = true := by simpa using hdigit
      have hwhole : ∃ whole tail, Whole whole ∧ c :: cs = whole ++ tail ∧ tail = if c = '0' then cs else cs.dropWhile isDigit := by
        by_cases hzero : c = '0'
        · exact ⟨['0'], cs, .inl rfl, by rw [hzero]; rfl, by rw [if_pos hzero]⟩
        · refine ⟨c :: cs.takeWhile isDigit, _, .inr ⟨⟨by simp, ?_⟩, by simpa using hzero⟩, ?_, rfl⟩
          · exact List.forall_mem_cons.mpr ⟨hdigit, takeWhile_isDigit cs⟩
          · simp [hzero]
      obtain ⟨whole, tail, hwhole, hcs, htail⟩ := hwhole
      have hbare : ∀ {significand left}, exponentOrEnd negative significand left tail = .ok (x, rest) →
          ∃ exponent, Exponent exponent ∧ tail = [] ++ (exponent ++ rest) := exponentOrEnd_sound
      generalize gather 0 (if c = '0' then [c] else c :: cs.takeWhile isDigit) = gathered at h
      rw [← htail] at h
      rw [hcs]
      split at h
      · obtain ⟨ds, exponent, hds, hexponent, he⟩ := fractionPart_sound h
        exact ⟨whole, '.' :: ds, exponent, hwhole, .inr ⟨ds, hds, rfl⟩, hexponent, by simp [he]⟩
      all_goals
        split_ifs at h
        · obtain ⟨exponent, hexponent, he⟩ := hbare h
          exact ⟨whole, [], exponent, hwhole, .inl rfl, hexponent, congrArg (whole ++ ·) he⟩
        · cases h
          exact ⟨whole, [], [], hwhole, .inl rfl, .inl rfl, rfl⟩

theorem number_sound (h : number cs = .ok (x, rest)) : ∃ spelled, Numeral spelled ∧ cs = spelled ++ rest := by
  rw [number.eq_def] at h
  split at h
  · obtain ⟨whole, fraction, exponent, hwhole, hfraction, hexponent, rfl⟩ := unsigned_sound h
    exact ⟨_, ⟨['-'], whole, fraction, exponent, .inr rfl, hwhole, hfraction, hexponent, rfl⟩, by simp⟩
  · obtain ⟨whole, fraction, exponent, hwhole, hfraction, hexponent, rfl⟩ := unsigned_sound h
    exact ⟨_, ⟨[], whole, fraction, exponent, .inl rfl, hwhole, hfraction, hexponent, rfl⟩, by simp⟩

end Number

/-! ### Texts -/

/-- The place of the scan at a place inside a text. -/
def Progress.phase : Progress → Raw.Phase
  | plain | paired _ => .inText false
  | escaped | pairedMark _ => .escaped false
  | unit _ left _ => .hex false left

/-- A text that is decoded is passed over by the scan. -/
theorem scan_of_textFrom {p : Progress} {done cs rest : List Char} {s : String} (h : textFrom p done cs = .ok (s, rest)) :
    Raw.scan p.phase [] cs = .ok rest := by
  induction cs generalizing p done with
  | nil => cases p <;> cases h
  | cons c cs ih =>
    have hmore : ∀ {next : Progress} {done : List Char}, textFrom next done cs = .ok (s, rest) →
        Raw.advance p.phase [] c cs = .ok (.more next.phase []) → Raw.scan p.phase [] (c :: cs) = .ok rest :=
      fun h hadvance => (Raw.scan_more hadvance).trans (ih h)
    cases p with
    | plain =>
      simp only [textFrom] at h
      split_ifs at h with hquote hback hcontrol
      · have hclose : Raw.advance Progress.plain.phase [] c cs = .ok (Raw.close []) := by
          simp [Progress.phase, Raw.advance, hquote, Raw.afterText]
        cases h
        exact Raw.scan_close hclose
      · exact hmore h (by simp [Progress.phase, Raw.advance, hback])
      · exact hmore h (by simp [Progress.phase, Raw.advance, hquote, hback, hcontrol])
    | escaped =>
      simp only [textFrom] at h
      split_ifs at h with hu hfour
      · exact hmore h (by simp [Progress.phase, Raw.advance, hu, hfour])
      · split at h
        · rename_i d hd
          exact hmore h (by simp [Progress.phase, Raw.advance, hu, hd])
        · cases h
    | unit high left value =>
      cases hd : Text.Hex.digit? c with
      | none => simp [textFrom, hd] at h
      | some d =>
        have hdigit : Raw.advance (Progress.unit high left value).phase [] c cs =
            .ok (.more (if 1 < left then .hex false (left - 1) else .inText false) []) := by
          simp only [Progress.phase, Raw.advance, hd, Option.isNone_some, Bool.false_eq_true, if_false]
          split <;> rfl
        by_cases hleft : 1 < left
        · simp only [textFrom, hd, if_pos hleft] at h hdigit
          exact hmore h hdigit
        · cases high with
          | none =>
            simp only [textFrom, hd, if_neg hleft] at h hdigit
            split_ifs at h
            · exact hmore h hdigit
            · exact hmore h hdigit
          | some high =>
            simp only [textFrom, hd, if_neg hleft] at h hdigit
            split_ifs at h
            exact hmore h hdigit
    | paired high =>
      simp only [textFrom] at h
      split_ifs at h with hback
      exact hmore h (by simp [Progress.phase, Raw.advance, hback])
    | pairedMark high =>
      simp only [textFrom] at h
      split_ifs at h with hu hfour
      exact hmore h (by simp [Progress.phase, Raw.advance, hu, hfour])

theorem text_sound {cs rest : List Char} {s : String} (h : text cs = .ok (s, rest)) :
    ∃ body, Body body ∧ cs = body ++ '"' :: rest := by
  obtain ⟨_, ⟨_, _, ⟨body, _, hbody, rfl, rfl⟩, rfl, rfl⟩, rfl⟩ := Raw.scan_sound (scan_of_textFrom h)
  exact ⟨body, hbody, by simp⟩

/-! ### Between brackets -/

namespace Grammar

/-- What may stand before a closing bracket, from the start or behind a piece. -/
def Upcoming (part : Part) : (first : Bool) → Shape
  | true => fun cs => Blanks cs ∨ Written part cs
  | false => fun cs => Blanks cs ∨ ∃ gap pieces, Blanks gap ∧ Written part pieces ∧ cs = gap ++ ',' :: pieces

variable {part : Part} {first : Bool} {cs before value : List Char}

theorem upcoming_items_blanks {blanks : List Char} (hb : Blanks blanks) (h : Upcoming .items first cs) :
    Upcoming .items first (blanks ++ cs) := by
  cases first with
  | true =>
    refine h.imp hb.append fun hw => ?_
    induction blanks with
    | nil => exact hw
    | cons c blanks ih =>
      obtain ⟨hc, hb⟩ := List.forall_mem_cons.mp hb
      exact written_items_cons hc (ih hb)
  | false =>
    refine h.imp hb.append ?_
    rintro ⟨gap, pieces, hgap, hpieces, rfl⟩
    exact ⟨blanks ++ gap, pieces, hb.append hgap, hpieces, by simp⟩

theorem Upcoming.items (hb : Blanks before) (hv : Valid value) (h : Upcoming .items false cs) :
    Written .items (before ++ (value ++ cs)) := by
  rcases h with h | ⟨gap, pieces, hgap, hpieces, rfl⟩
  · exact .item hb hv h
  · exact .items hb hv hgap hpieces

theorem Upcoming.members {key : List Char} (hk : Padded (Quoted Body) key) (hb : Blanks before) (hv : Valid value)
    (h : Upcoming .members false cs) : Written .members (key ++ ':' :: (before ++ (value ++ cs))) := by
  rcases h with h | ⟨gap, pieces, hgap, hpieces, rfl⟩
  · exact .member hk hb hv h
  · exact .members hk hb hv hgap hpieces

theorem Upcoming.list (h : Upcoming .items true cs) : Valid ('[' :: (cs ++ [']'])) :=
  h.elim .noItems .list

theorem Upcoming.object (h : Upcoming .members true cs) : Valid ('{' :: (cs ++ ['}'])) :=
  h.elim .noMembers .object

end Grammar

section Brackets
variable {first : Bool} {cs tail : List Char}

theorem skipBlank_eq_cons {c : Char} (h : skipBlank cs = c :: tail) : ∃ before, Blanks before ∧ cs = before ++ c :: tail := by
  obtain ⟨before, hbefore, hcs⟩ := Raw.skipBlank_split cs
  exact ⟨before, hbefore, h ▸ hcs⟩

theorem nextItem_eq_false (h : nextItem first cs = .ok (false, tail)) :
    ∃ before after, Blanks before ∧ tail = ']' :: after ∧ cs = before ++ tail := by
  simp only [nextItem] at h
  split at h
  · cases h
  · rename_i c rest hskip
    obtain ⟨before, hbefore, rfl⟩ := skipBlank_eq_cons hskip
    split_ifs at h with hclose
    · cases h
      exact ⟨before, rest, hbefore, hclose ▸ rfl, rfl⟩
    · cases h
    · split at h
      · cases h
      · split at h <;> cases h

theorem nextItem_eq_true (h : nextItem first cs = .ok (true, tail)) :
    ∃ before, Blanks before ∧
      if first then cs = before ++ tail else ∃ gap, Blanks gap ∧ cs = gap ++ ',' :: (before ++ tail) := by
  simp only [nextItem] at h
  split at h
  · cases h
  · rename_i c rest hskip
    obtain ⟨gap, hgap, rfl⟩ := skipBlank_eq_cons hskip
    split_ifs at h with hclose hfirst hcomma
    · cases h
    · cases h
      exact ⟨gap, hgap, by rw [if_pos hfirst]⟩
    · split at h
      · cases h
      · rename_i d rest' hskip'
        obtain ⟨before, hbefore, rfl⟩ := skipBlank_eq_cons hskip'
        split at h <;> cases h
        exact ⟨before, hbefore, by rw [if_neg hfirst]; exact ⟨gap, hgap, hcomma ▸ rfl⟩⟩

theorem endList_sound (h : endList cs = .ok tail) : ∃ before, Blanks before ∧ cs = before ++ ']' :: tail := by
  simp only [endList] at h
  split at h
  · cases h
  · rename_i c rest hskip
    obtain ⟨before, hbefore, rfl⟩ := skipBlank_eq_cons hskip
    split_ifs at h with hclose
    cases h
    exact ⟨before, hbefore, hclose ▸ rfl⟩

theorem colon_sound (h : colon cs = .ok tail) : ∃ gap, Blanks gap ∧ cs = gap ++ ':' :: tail := by
  simp only [colon] at h
  split at h
  · cases h
  · rename_i c rest hskip
    obtain ⟨gap, hgap, rfl⟩ := skipBlank_eq_cons hskip
    split_ifs at h with hcolon
    cases h
    exact ⟨gap, hgap, hcolon ▸ rfl⟩

theorem key_sound {found : Option String} (h : nextKey.key cs = .ok (found, tail)) :
    ∃ name body, found = some name ∧ Body body ∧ cs = '"' :: (body ++ '"' :: tail) := by
  rw [nextKey.key.eq_def] at h
  split at h
  · obtain ⟨⟨name, _⟩, htext, h⟩ := bind_ok.mp h
    cases h
    obtain ⟨body, hbody, rfl⟩ := text_sound htext
    exact ⟨name, body, rfl, hbody, rfl⟩
  · cases h

theorem nextKey_eq_none (h : nextKey first cs = .ok (none, tail)) :
    ∃ before after, Blanks before ∧ tail = '}' :: after ∧ cs = before ++ tail := by
  have hkey : ∀ {cs}, nextKey.key cs ≠ .ok (none, tail) := fun h => by
    obtain ⟨_, _, h, _⟩ := key_sound h
    cases h
  simp only [nextKey] at h
  split at h
  · cases h
  · rename_i c rest hskip
    obtain ⟨before, hbefore, rfl⟩ := skipBlank_eq_cons hskip
    split_ifs at h with hclose hfirst hcomma
    · cases h
      exact ⟨before, rest, hbefore, hclose ▸ rfl, rfl⟩
    · exact absurd h hkey
    · split at h
      · cases h
      · split_ifs at h
        exact absurd h hkey

theorem nextKey_eq_some {name : String} (h : nextKey first cs = .ok (some name, tail)) :
    ∃ before body, Blanks before ∧ Body body ∧
      if first then cs = before ++ '"' :: (body ++ '"' :: tail)
      else ∃ gap, Blanks gap ∧ cs = gap ++ ',' :: (before ++ '"' :: (body ++ '"' :: tail)) := by
  simp only [nextKey] at h
  split at h
  · cases h
  · rename_i c rest hskip
    obtain ⟨gap, hgap, rfl⟩ := skipBlank_eq_cons hskip
    split_ifs at h with hclose hfirst hcomma
    · cases h
    · obtain ⟨_, body, _, hbody, he⟩ := key_sound h
      exact ⟨gap, body, hgap, hbody, by rw [if_pos hfirst, he]⟩
    · split at h
      · cases h
      · rename_i d rest' hskip'
        obtain ⟨before, hbefore, rfl⟩ := skipBlank_eq_cons hskip'
        split_ifs at h
        obtain ⟨_, body, _, hbody, he⟩ := key_sound h
        exact ⟨before, body, hbefore, hbody, by rw [if_neg hfirst]; exact ⟨gap, hgap, by rw [hcomma, he]⟩⟩

end Brackets

/-- The members that are read are members. -/
theorem membersUpTo_sound {σ : Type} {step : σ → String → Reader σ}
    (hstep : ∀ {s name cs s' rest}, step s name cs = .ok (s', rest) → ∃ inside, Raw.AfterKey inside ∧ cs = inside ++ rest)
    {fuel : Nat} {first : Bool} {s s' : σ} {cs rest : List Char}
    (h : membersUpTo step fuel first s cs = .ok (s', rest)) :
    ∃ inside after, rest = '}' :: after ∧ Upcoming .members first inside ∧ cs = inside ++ '}' :: after := by
  induction fuel generalizing first s cs with
  | zero => cases h
  | succ fuel ih =>
    simp only [membersUpTo, bind_ok] at h
    obtain ⟨⟨name, tail⟩, hkey, h⟩ := h
    cases name with
    | none =>
      cases h
      obtain ⟨before, after, hbefore, rfl, rfl⟩ := nextKey_eq_none hkey
      refine ⟨before, after, rfl, ?_, rfl⟩
      cases first <;> exact .inl hbefore
    | some name =>
      obtain ⟨⟨s₁, cs₁⟩, hs, h⟩ := bind_ok.mp h
      obtain ⟨others, after, rfl, hothers, rfl⟩ := ih h
      obtain ⟨_, ⟨gap, before, value, hgap, hbefore, hvalue, rfl⟩, rfl⟩ := hstep hs
      obtain ⟨ahead, body, hahead, hbody, he⟩ := nextKey_eq_some hkey
      have hpieces : Written .members (ahead ++ ('"' :: (body ++ ['"']) ++ gap) ++ ':' :: (before ++ (value ++ others))) :=
        hothers.members ⟨ahead, _, gap, hahead, ⟨body, hbody, rfl⟩, hgap, rfl⟩ hbefore hvalue
      cases first with
      | true =>
        rw [if_pos rfl] at he
        exact ⟨_, after, rfl, .inr hpieces, by simp [he]⟩
      | false =>
        obtain ⟨ahead', hahead', rfl⟩ := he
        exact ⟨_, after, rfl, .inr ⟨ahead', _, hahead', hpieces, rfl⟩, by simp⟩

/-! ### Codecs -/

namespace Codec
variable {α β : Type}

/-- What is read is a value, with blanks before it. -/
def Sound (c : Codec α) : Prop :=
  ∀ {depth cs a rest}, c.read depth cs = .ok (a, rest) →
    ∃ before value, Blanks before ∧ Valid value ∧ cs = before ++ (value ++ rest)

theorem Sound.decode {c : Codec α} (h : c.Sound) {s : String} {a : α} (hs : c.decode s = .ok a) :
    Padded Valid s.toList := by
  obtain ⟨⟨_, rest⟩, hread, hs⟩ := bind_ok.mp hs
  obtain ⟨before, value, hbefore, hvalue, he⟩ := h hread
  obtain ⟨after, hafter, hrest⟩ := Raw.skipBlank_split rest
  dsimp only at hs
  split at hs
  · rename_i hnil
    rw [hnil, List.append_nil] at hrest
    exact ⟨before, value, rest, hbefore, hvalue, hrest ▸ hafter, he⟩
  · cases hs

theorem afterBlank_sound {read : Reader α} {cs rest : List Char} {a : α} (h : afterBlank read cs = .ok (a, rest)) :
    ∃ before c tail, Blanks before ∧ read (c :: tail) = .ok (a, rest) ∧ cs = before ++ c :: tail := by
  simp only [afterBlank] at h
  split at h
  · cases h
  · rename_i hne
    obtain ⟨c, tail, hskip⟩ := List.exists_cons_of_ne_nil hne
    obtain ⟨before, hbefore, rfl⟩ := skipBlank_eq_cons hskip
    exact ⟨before, c, tail, hbefore, hskip ▸ h, rfl⟩

theorem sound_map {c : Codec α} (h : c.Sound) (f : α → β) (back : β → α) : (c.map f back).Sound := by
  intro depth cs b rest hread
  obtain ⟨⟨a, _⟩, hread', he⟩ := map_ok.mp hread
  cases he
  exact h hread'

theorem sound_text : text.Sound := by
  intro depth cs s rest h
  obtain ⟨before, c, tail, hbefore, hread, rfl⟩ := afterBlank_sound h
  split at hread
  · rename_i he
    cases he
    obtain ⟨body, hbody, rfl⟩ := text_sound hread
    exact ⟨before, _, hbefore, .text ⟨body, hbody, rfl⟩, by simp⟩
  · cases hread

theorem sound_integer (want : String) (low high : Int) : (integer want low high).Sound := by
  intro depth cs n rest h
  obtain ⟨before, c, tail, hbefore, hread, rfl⟩ := afterBlank_sound h
  dsimp only at hread
  split at hread
  · obtain ⟨⟨x, rest'⟩, hx, hread⟩ := bind_ok.mp hread
    obtain ⟨spelled, hspelled, he⟩ := number_sound hx
    have hrest : rest' = rest := by
      cases x with
      | real x => cases hread
      | whole n =>
        dsimp only at hread
        split at hread <;> cases hread
        rfl
    exact ⟨before, spelled, hbefore, .number hspelled, by rw [he, hrest]⟩
  · cases hread

theorem sound_int64 : int64.Sound := sound_map (sound_integer "i64" _ _) _ _

theorem sound_uint64 : uint64.Sound := sound_map (sound_integer "u64" _ _) _ _

/-- An object is read up to its closing brace. -/
theorem sound_members {σ : Type} {step : σ → String → Reader σ}
    (hstep : ∀ {s name cs s' rest}, step s name cs = .ok (s', rest) → ∃ inside, Raw.AfterKey inside ∧ cs = inside ++ rest)
    {fuel : Nat} {s s' : σ} {cs rest rest' : List Char} (h : membersUpTo step fuel true s cs = .ok (s', rest))
    (hend : endObject rest = .ok rest') : ∃ value, Valid value ∧ '{' :: cs = value ++ rest' := by
  obtain ⟨inside, after, rfl, hinside, rfl⟩ := membersUpTo_sound hstep h
  cases hend
  exact ⟨_, hinside.object, by simp⟩

theorem keepText_sound {kept kept' : List (String × String)} {name : String} {cs rest : List Char}
    (h : keepText kept name cs = .ok (kept', rest)) : ∃ inside, Raw.AfterKey inside ∧ cs = inside ++ rest := by
  obtain ⟨cs₁, hcolon, h⟩ := bind_ok.mp h
  obtain ⟨⟨v, _⟩, hread, h⟩ := bind_ok.mp h
  cases h
  obtain ⟨gap, hgap, rfl⟩ := colon_sound hcolon
  obtain ⟨ahead, hahead, hvalue, rfl⟩ := Raw.read_sound hread
  exact ⟨_, ⟨gap, ahead, _, hgap, hahead, hvalue, rfl⟩, by simp⟩

theorem sound_rawMembers : rawMembers.Sound := by
  intro depth cs ms rest h
  obtain ⟨before, c, tail, hbefore, hread, rfl⟩ := afterBlank_sound h
  split at hread
  · rename_i he
    cases he
    cases depth with
    | zero => cases hread
    | succ depth =>
      obtain ⟨⟨kept, rest₁⟩, hmembers, hread⟩ := bind_ok.mp hread
      obtain ⟨rest₂, hend, hread⟩ := bind_ok.mp hread
      cases hread
      obtain ⟨value, hvalue, he⟩ := sound_members keepText_sound hmembers hend
      exact ⟨before, value, hbefore, hvalue, congrArg (before ++ ·) he⟩
  · cases hread

end Codec

/-! ### Structures -/

section Record
variable {fs : List Field} {depth : Nat} {cs rest : List Char}

theorem Slots.lookup_sound (hfs : ∀ f ∈ fs, f.codec.Sound) {slots slots' : Slots fs} {key : String}
    {fill : Nat → Reader (Slots fs)} (hl : lookup fs slots key = .free fill)
    (h : fill depth cs = .ok (slots', rest)) : ∃ before value, Blanks before ∧ Valid value ∧ cs = before ++ (value ++ rest) := by
  induction fs generalizing rest with
  | nil => cases hl
  | cons f fs ih =>
    obtain ⟨hf, hfs⟩ := List.forall_mem_cons.mp hfs
    obtain ⟨slot, slots⟩ := slots
    simp only [lookup] at hl
    split at hl
    · split at hl
      · cases hl
      · cases hl
        obtain ⟨⟨a, _⟩, hread, h⟩ := bind_ok.mp h
        cases h
        exact hf hread
    · cases hk : lookup fs slots key with
      | unknown => simp [hk] at hl
      | taken => simp [hk] at hl
      | free fill' =>
        simp only [hk] at hl
        cases hl
        obtain ⟨⟨_, _⟩, hread, h⟩ := bind_ok.mp h
        cases h
        exact ih hfs hk hread

theorem Slots.member_sound (hfs : ∀ f ∈ fs, f.codec.Sound) {slots slots' : Slots fs} {key : String}
    (h : member fs depth slots key cs = .ok (slots', rest)) : ∃ inside, Raw.AfterKey inside ∧ cs = inside ++ rest := by
  simp only [member] at h
  have hafter : ∀ {cs₁}, colon cs = .ok cs₁ →
      (∃ before value, Blanks before ∧ Valid value ∧ cs₁ = before ++ (value ++ rest)) →
      ∃ inside, Raw.AfterKey inside ∧ cs = inside ++ rest := by
    rintro cs₁ hcolon ⟨before, value, hbefore, hvalue, rfl⟩
    obtain ⟨gap, hgap, rfl⟩ := colon_sound hcolon
    exact ⟨_, ⟨gap, before, value, hgap, hbefore, hvalue, rfl⟩, by simp⟩
  cases hl : lookup fs slots key with
  | unknown =>
    simp only [hl] at h
    obtain ⟨cs₁, hcolon, h⟩ := bind_ok.mp h
    obtain ⟨_, hskip, h⟩ := bind_ok.mp h
    cases h
    exact hafter hcolon (Raw.skip_sound hskip)
  | taken => simp [hl] at h
  | free fill =>
    simp only [hl] at h
    obtain ⟨cs₁, hcolon, h⟩ := bind_ok.mp h
    exact hafter hcolon (lookup_sound hfs hl h)

/-- The elements that are read are elements, if nothing but the closing bracket comes after them. -/
theorem Values.fromItems_sound (hfs : ∀ f ∈ fs, f.codec.Sound) {size : String} {first : Bool} {index : Nat}
    {values : Values fs} {blanks after : List Char} (hb : Blanks blanks)
    (h : fromItems size depth fs first index cs = .ok (values, blanks ++ ']' :: after)) :
    ∃ inside, Upcoming .items first inside ∧ cs = inside ++ ']' :: after := by
  induction fs generalizing first index cs with
  | nil =>
    cases h
    refine ⟨blanks, ?_, rfl⟩
    cases first <;> exact .inl hb
  | cons f fs ih =>
    obtain ⟨hf, hfs⟩ := List.forall_mem_cons.mp hfs
    simp only [fromItems] at h
    obtain ⟨⟨more, cs₁⟩, hnext, hread⟩ := bind_ok.mp h
    clear h
    cases more with
    | false =>
      obtain ⟨gap, _, hgap, rfl, rfl⟩ := nextItem_eq_false hnext
      simp only [Bool.false_eq_true, if_false] at hread
      split at hread
      · cases hread
      · obtain ⟨⟨others, _⟩, hothers, hread⟩ := bind_ok.mp hread
        cases hread
        obtain ⟨inside, hinside, he⟩ := ih hfs hothers
        exact ⟨gap ++ inside, upcoming_items_blanks hgap hinside, by rw [he, List.append_assoc]⟩
    | true =>
      obtain ⟨ahead, hahead, hcs⟩ := nextItem_eq_true hnext
      simp only [if_true] at hread
      obtain ⟨⟨a, cs₂⟩, ha, hread⟩ := bind_ok.mp hread
      obtain ⟨⟨others, _⟩, hothers, hread⟩ := bind_ok.mp hread
      cases hread
      obtain ⟨inside, hinside, rfl⟩ := ih hfs hothers
      obtain ⟨before, value, hbefore, hvalue, rfl⟩ := hf ha
      have hitems := hinside.items (hahead.append hbefore) hvalue
      cases first with
      | true =>
        rw [if_pos rfl] at hcs
        exact ⟨_, .inr hitems, by simp [hcs]⟩
      | false =>
        obtain ⟨gap, hgap, rfl⟩ := hcs
        exact ⟨_, .inr ⟨gap, _, hgap, hitems, rfl⟩, by simp⟩

theorem Codec.sound_record {α : Type} (name : String) (hfs : ∀ f ∈ fs, f.codec.Sound) (of : Values fs → α)
    (fields : α → Values fs) : (record name fs of fields).Sound := by
  intro depth cs a rest h
  obtain ⟨before, c, tail, hbefore, hread, rfl⟩ := afterBlank_sound h
  split at hread
  · rename_i he
    cases he
    cases depth with
    | zero => cases hread
    | succ depth =>
      obtain ⟨⟨values, rest₁⟩, hvalues, hread⟩ := bind_ok.mp hread
      obtain ⟨rest₂, hend, hread⟩ := bind_ok.mp hread
      cases hread
      obtain ⟨blanks, hblanks, rfl⟩ := endList_sound hend
      obtain ⟨inside, hinside, rfl⟩ := Values.fromItems_sound hfs hblanks hvalues
      exact ⟨before, _, hbefore, hinside.list, by simp⟩
  · rename_i he
    cases he
    cases depth with
    | zero => cases hread
    | succ depth =>
      obtain ⟨⟨slots, rest₁⟩, hmembers, hread⟩ := bind_ok.mp hread
      obtain ⟨values, _, hread⟩ := bind_ok.mp hread
      obtain ⟨rest₂, hend, hread⟩ := bind_ok.mp hread
      cases hread
      obtain ⟨value, hvalue, he⟩ := sound_members (Slots.member_sound hfs) hmembers hend
      exact ⟨before, value, hbefore, hvalue, congrArg (before ++ ·) he⟩
  · cases hread

end Record

end EventIntake.Json
