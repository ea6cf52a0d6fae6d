import EventIntake.Proofs.Json.Raw
import EventIntake.Proofs.Json.Kept
import EventIntake.Proofs.Json.Record
import Mathlib.Data.List.DropRight

/-! Whatever the scan passes over is a JSON value. What the open brackets and the current place still demand of the text
is a shape; one character leads from the shape of one place to that of the next. -/
namespace EventIntake.Json
open Decimal Grammar

theorem Blanks.append {blanks cs : List Char} (hb : Blanks blanks) (h : Blanks cs) : Blanks (blanks ++ cs) :=
  List.forall_mem_append.mpr ⟨hb, h⟩

theorem Blanks.cons {c : Char} {cs : List Char} (hc : isBlank c = true) (h : Blanks cs) : Blanks (c :: cs) :=
  List.forall_mem_cons.mpr ⟨hc, h⟩

namespace Grammar

theorem written_items_cons {c : Char} {cs : List Char} (hc : isBlank c = true) (h : Written .items cs) :
    Written .items (c :: cs) := by
  cases h with
  | item hb hv ha => exact .item (hb.cons hc) hv ha
  | items hb hv ha hrest => exact .items (hb.cons hc) hv ha hrest

theorem written_members_cons {c : Char} {cs : List Char} (hc : isBlank c = true) (h : Written .members cs) :
    Written .members (c :: cs) := by
  have hkey {key : List Char} (h : Padded (Quoted Body) key) : Padded (Quoted Body) (c :: key) := by
    obtain ⟨before, inside, gap, hbefore, hinside, hgap, rfl⟩ := h
    exact ⟨c :: before, inside, gap, hbefore.cons hc, hinside, hgap, rfl⟩
  cases h with
  | member hk hb hv ha => exact .member (hkey hk) hb hv ha
  | members hk hb hv ha hrest => exact .members (hkey hk) hb hv ha hrest

/-- Four hexadecimal digits after the mark of a unit. -/
theorem Body.of_digits {ds body : List Char} (hl : ds.length = 4) (hds : ∀ d ∈ ds, (Text.Hex.digit? d).isSome)
    (h : Body body) : Body ('\\' :: 'u' :: (ds ++ body)) := by
  match ds, hl with
  | [a, b, c, d], _ =>
    simp only [List.forall_mem_cons, Option.isSome_iff_exists] at hds
    obtain ⟨⟨_, ha⟩, ⟨_, hb⟩, ⟨_, hc⟩, ⟨_, hd⟩, _⟩ := hds
    exact .unit (.of ha hb hc hd) h

end Grammar

namespace Raw

/-! ### What is still to come -/

/-- What closes the open brackets once a value in the innermost of them is complete. -/
def Closing : List Frame → Shape
  | [], cs => cs = []
  | .list :: outer, cs => ∃ after tail, Blanks after ∧ Closing outer tail ∧
    (cs = after ++ ']' :: tail ∨ ∃ items, Written .items items ∧ cs = after ++ ',' :: (items ++ ']' :: tail))
  | .object :: outer, cs => ∃ after tail, Blanks after ∧ Closing outer tail ∧
    (cs = after ++ '}' :: tail ∨ ∃ members, Written .members members ∧ cs = after ++ ',' :: (members ++ '}' :: tail))

/-- A piece of text, and then what closes the open brackets. -/
def Behind (frames : List Frame) (shape : Shape) : Shape := fun cs =>
  ∃ inside tail, shape inside ∧ Closing frames tail ∧ cs = inside ++ tail

def AllDigits : Shape := fun cs => ∀ c ∈ cs, isDigit c = true

/-- The rest of a member after its key. -/
def AfterKey : Shape := fun cs =>
  ∃ gap before value, Blanks gap ∧ Blanks before ∧ Valid value ∧ cs = gap ++ ':' :: (before ++ value)

/-- What belongs to a text after its closing quote. -/
def AfterQuote : (isKey : Bool) → Shape
  | true => AfterKey
  | false => (· = [])

/-- The rest of the value, or of the member, that a place is in. -/
def Rest : Phase → Shape
  | .value => fun cs => ∃ before value, Blanks before ∧ Valid value ∧ cs = before ++ value
  | .key => fun cs =>
    ∃ before body tail, Blanks before ∧ Body body ∧ AfterKey tail ∧ cs = before ++ '"' :: (body ++ '"' :: tail)
  | .colon => AfterKey
  | .word left => (· = left)
  | .inText isKey => fun cs => ∃ body tail, Body body ∧ AfterQuote isKey tail ∧ cs = body ++ '"' :: tail
  | .escaped isKey => fun cs => ∃ body tail, Body ('\\' :: body) ∧ AfterQuote isKey tail ∧ cs = body ++ '"' :: tail
  | .hex isKey left => fun cs =>
    ∃ ds body tail, ds.length = left - 1 + 1 ∧ (∀ d ∈ ds, (Text.Hex.digit? d).isSome) ∧ Body body ∧
      AfterQuote isKey tail ∧ cs = ds ++ (body ++ '"' :: tail)
  | .sign => fun cs =>
    ∃ whole fraction exponent, Whole whole ∧ Fraction fraction ∧ Exponent exponent ∧
      cs = whole ++ (fraction ++ exponent)
  | .zero => fun cs => ∃ fraction exponent, Fraction fraction ∧ Exponent exponent ∧ cs = fraction ++ exponent
  | .whole => fun cs =>
    ∃ ds fraction exponent, AllDigits ds ∧ Fraction fraction ∧ Exponent exponent ∧ cs = ds ++ (fraction ++ exponent)
  | .point => fun cs => ∃ ds exponent, Digits ds ∧ Exponent exponent ∧ cs = ds ++ exponent
  | .fraction => fun cs => ∃ ds exponent, AllDigits ds ∧ Exponent exponent ∧ cs = ds ++ exponent
  | .exponent => fun cs => ∃ sign ds, (sign = [] ∨ sign = ['+'] ∨ sign = ['-']) ∧ Digits ds ∧ cs = sign ++ ds
  | .exponentSign => Digits
  | .power => AllDigits
  | .separator | .firstItem | .firstKey => (· = [])

/-- All that a place and the open brackets demand of the text. Just behind an opening bracket there may be nothing
before the closing one. -/
def Left : Phase → List Frame → Shape
  | .firstItem, frames => fun cs => ∀ outer, frames = .list :: outer →
    ∃ inside tail, (Blanks inside ∨ Written .items inside) ∧ Closing outer tail ∧ cs = inside ++ ']' :: tail
  | .firstKey, frames => fun cs => ∀ outer, frames = .object :: outer →
    ∃ inside tail, (Blanks inside ∨ Written .members inside) ∧ Closing outer tail ∧ cs = inside ++ '}' :: tail
  | phase, frames => Behind frames (Rest phase)

/-- What a step that takes `c` demands of the text from `c` on. -/
def Leads (step : Step) (c : Char) : Shape := fun cs =>
  match step with
  | .more phase frames => ∃ rest, Left phase frames rest ∧ cs = c :: rest
  | .last => cs = [c]
  | .before => cs = []

variable {frames outer : List Frame} {step : Step} {c : Char} {cs : List Char}

theorem AllDigits.cons (hc : isDigit c = true) (h : AllDigits cs) : AllDigits (c :: cs) :=
  List.forall_mem_cons.mpr ⟨hc, h⟩

theorem AllDigits.digits (hc : isDigit c = true) (h : AllDigits cs) : Digits (c :: cs) :=
  ⟨by simp, h.cons hc⟩

theorem Behind.imp {shape shape' : Shape} (h : Behind frames shape cs) (hs : ∀ cs, shape cs → shape' cs) :
    Behind frames shape' cs := by
  obtain ⟨inside, tail, hinside, htail, rfl⟩ := h
  exact ⟨inside, tail, hs _ hinside, htail, rfl⟩

/-- One more character in front of what a place demands. -/
theorem Behind.of_more {phase : Phase} {shape : Shape} (hl : Leads (.more phase frames) c cs)
    (hp : Left phase frames = Behind frames (Rest phase)) (hs : ∀ rest, Rest phase rest → shape (c :: rest)) :
    Behind frames shape cs := by
  obtain ⟨_, hrest, rfl⟩ := hl
  rw [hp] at hrest
  obtain ⟨inside, tail, hinside, htail, rfl⟩ := hrest
  exact ⟨c :: inside, tail, hs _ hinside, htail, rfl⟩

theorem Behind.closing (h : Behind frames (· = []) cs) : Closing frames cs := by
  obtain ⟨_, _, rfl, h, rfl⟩ := h
  exact h

theorem Closing.behind {shape : Shape} (h : Closing frames cs) (hs : shape []) : Behind frames shape cs :=
  ⟨[], cs, hs, h, rfl⟩

theorem leads_close (h : Leads (close frames) c cs) : ∃ tail, Closing frames tail ∧ cs = c :: tail := by
  cases frames with
  | nil => exact ⟨[], rfl, h⟩
  | cons frame outer =>
    obtain ⟨rest, hrest, rfl⟩ := h
    exact ⟨rest, hrest.closing, rfl⟩

/-- A complete value is an element of the innermost list. -/
theorem Closing.items {before value : List Char} (hb : Blanks before) (hv : Valid value)
    (h : Closing (.list :: outer) cs) :
    ∃ items tail, Written .items items ∧ Closing outer tail ∧ before ++ (value ++ cs) = items ++ ']' :: tail := by
  obtain ⟨after, tail, hafter, htail, rfl | ⟨items, hitems, rfl⟩⟩ := h
  · exact ⟨_, tail, .item hb hv hafter, htail, by simp⟩
  · exact ⟨_, tail, .items hb hv hafter hitems, htail, by simp⟩

/-- A complete member is one of the innermost object. -/
theorem Closing.members {before body rest : List Char} (hb : Blanks before) (hbody : Body body) (hrest : AfterKey rest)
    (h : Closing (.object :: outer) cs) :
    ∃ members tail, Written .members members ∧ Closing outer tail ∧
      before ++ '"' :: (body ++ '"' :: (rest ++ cs)) = members ++ '}' :: tail := by
  obtain ⟨gap, ahead, value, hgap, hahead, hvalue, rfl⟩ := hrest
  have hkey : Padded (Quoted Body) (before ++ ('"' :: (body ++ ['"']) ++ gap)) :=
    ⟨before, _, gap, hb, ⟨body, hbody, rfl⟩, hgap, rfl⟩
  obtain ⟨after, tail, hafter, htail, rfl | ⟨members, hmembers, rfl⟩⟩ := h
  · exact ⟨_, tail, .member hkey hahead hvalue hafter, htail, by simp⟩
  · exact ⟨_, tail, .members hkey hahead hvalue hafter hmembers, htail, by simp⟩

/-! ### One character -/

theorem leads_startValue (h : startValue frames c = .ok step) (hl : Leads step c cs) : Behind frames Valid cs := by
  simp only [startValue] at h
  split_ifs at h with hn ht hf hquote hminus hzero hdigit hlist hobject <;> cases h
  · exact .of_more hl rfl fun _ hs => hs ▸ hn ▸ .null
  · exact .of_more hl rfl fun _ hs => hs ▸ ht ▸ .true
  · exact .of_more hl rfl fun _ hs => hs ▸ hf ▸ .false
  · refine .of_more hl rfl ?_
    rintro _ ⟨body, _, hbody, rfl, rfl⟩
    exact .text ⟨body, hbody, hquote ▸ rfl⟩
  · refine .of_more hl rfl ?_
    rintro _ ⟨whole, fraction, exponent, hwhole, hfraction, hexponent, rfl⟩
    exact .number ⟨['-'], whole, fraction, exponent, .inr rfl, hwhole, hfraction, hexponent, hminus ▸ rfl⟩
  · refine .of_more hl rfl ?_
    rintro _ ⟨fraction, exponent, hfraction, hexponent, rfl⟩
    exact .number ⟨[], ['0'], fraction, exponent, .inl rfl, .inl rfl, hfraction, hexponent, hzero ▸ rfl⟩
  · refine .of_more hl rfl ?_
    rintro _ ⟨ds, fraction, exponent, hds, hfraction, hexponent, rfl⟩
    have hwhole : Whole (c :: ds) := .inr ⟨hds.digits hdigit, by simpa using hzero⟩
    exact .number ⟨[], c :: ds, fraction, exponent, .inl rfl, hwhole, hfraction, hexponent, rfl⟩
  · obtain ⟨_, hrest, rfl⟩ := hl
    obtain ⟨inside, tail, hinside, htail, rfl⟩ := hrest frames rfl
    refine ⟨c :: (inside ++ [']']), tail, ?_, htail, by simp⟩
    rcases hinside with hinside | hinside
    · exact hlist ▸ .noItems hinside
    · exact hlist ▸ .list hinside
  · obtain ⟨_, hrest, rfl⟩ := hl
    obtain ⟨inside, tail, hinside, htail, rfl⟩ := hrest frames rfl
    refine ⟨c :: (inside ++ ['}']), tail, ?_, htail, by simp⟩
    rcases hinside with hinside | hinside
    · exact hobject ▸ .noMembers hinside
    · exact hobject ▸ .object hinside

theorem leads_separate (h : separate frames c = .ok step) (hl : Leads step c cs) : Closing frames cs := by
  cases frames with
  | nil =>
    cases h
    exact hl
  | cons frame outer =>
    cases frame with
    | list =>
      simp only [separate] at h
      split_ifs at h with hblank hcomma hclose <;> cases h
      · obtain ⟨_, hrest, rfl⟩ := hl
        obtain ⟨after, tail, hafter, htail, rfl | ⟨items, hitems, rfl⟩⟩ := hrest.closing
        · exact ⟨c :: after, tail, hafter.cons hblank, htail, .inl rfl⟩
        · exact ⟨c :: after, tail, hafter.cons hblank, htail, .inr ⟨items, hitems, rfl⟩⟩
      · obtain ⟨_, ⟨_, _, ⟨before, value, hbefore, hvalue, rfl⟩, hclosing, rfl⟩, rfl⟩ := hl
        obtain ⟨items, tail, hitems, htail, he⟩ := hclosing.items hbefore hvalue
        exact ⟨[], tail, blanks_nil, htail, .inr ⟨items, hitems, by simp [hcomma, he]⟩⟩
      · obtain ⟨tail, htail, rfl⟩ := leads_close hl
        exact ⟨[], tail, blanks_nil, htail, .inl (hclose ▸ rfl)⟩
    | object =>
      simp only [separate] at h
      split_ifs at h with hblank hcomma hclose <;> cases h
      · obtain ⟨_, hrest, rfl⟩ := hl
        obtain ⟨after, tail, hafter, htail, rfl | ⟨members, hmembers, rfl⟩⟩ := hrest.closing
        · exact ⟨c :: after, tail, hafter.cons hblank, htail, .inl rfl⟩
        · exact ⟨c :: after, tail, hafter.cons hblank, htail, .inr ⟨members, hmembers, rfl⟩⟩
      · obtain ⟨_, ⟨_, _, ⟨before, body, rest, hbefore, hbody, hrest, rfl⟩, hclosing, rfl⟩, rfl⟩ := hl
        obtain ⟨members, tail, hmembers, htail, he⟩ := hclosing.members hbefore hbody hrest
        exact ⟨[], tail, blanks_nil, htail, .inr ⟨members, hmembers, by simp [hcomma, he]⟩⟩
      · obtain ⟨tail, htail, rfl⟩ := leads_close hl
        exact ⟨[], tail, blanks_nil, htail, .inl (hclose ▸ rfl)⟩

/-- What ends a value that is complete already. -/
theorem Behind.of_separate {shape : Shape} (h : separate frames c = .ok step) (hl : Leads step c cs) (hs : shape []) :
    Behind frames shape cs :=
  ⟨[], cs, hs, leads_separate h hl, rfl⟩

section Phases
variable {after : List Char}

theorem leads_value (h : advance .value frames c after = .ok step) (hl : Leads step c cs) :
    Behind frames (Rest .value) cs := by
  simp only [advance] at h
  split_ifs at h with hblank
  · cases h
    refine .of_more hl rfl ?_
    rintro _ ⟨before, value, hbefore, hvalue, rfl⟩
    exact ⟨c :: before, value, hbefore.cons hblank, hvalue, rfl⟩
  · exact (leads_startValue h hl).imp fun value hvalue => ⟨[], value, blanks_nil, hvalue, rfl⟩

theorem leads_word {left : List Char} (h : advance (.word left) frames c after = .ok step) (hl : Leads step c cs) :
    Behind frames (Rest (.word left)) cs := by
  cases left with
  | nil => exact .of_separate h hl rfl
  | cons w ws =>
    simp only [advance] at h
    split_ifs at h with hne hend
    · cases h
      obtain ⟨tail, htail, rfl⟩ := leads_close hl
      exact ⟨[c], tail, by simp [Rest, List.isEmpty_iff.mp hend, not_not.mp hne], htail, rfl⟩
    · cases h
      exact .of_more hl rfl fun _ hs => hs ▸ not_not.mp hne ▸ rfl

/-! #### Brackets -/

theorem leads_firstItem (h : advance .firstItem frames c after = .ok step) (hl : Leads step c cs) :
    Left .firstItem frames cs := by
  rintro outer rfl
  simp only [advance] at h
  split_ifs at h with hblank hclose
  · cases h
    obtain ⟨_, hrest, rfl⟩ := hl
    obtain ⟨inside, tail, hinside, htail, rfl⟩ := hrest outer rfl
    exact ⟨c :: inside, tail, hinside.imp (·.cons hblank) (written_items_cons hblank), htail, rfl⟩
  · cases h
    obtain ⟨tail, htail, rfl⟩ := leads_close hl
    exact ⟨[], tail, .inl blanks_nil, htail, hclose ▸ rfl⟩
  · obtain ⟨value, _, hvalue, hclosing, rfl⟩ := leads_startValue h hl
    obtain ⟨items, tail, hitems, htail, he⟩ := hclosing.items blanks_nil hvalue
    exact ⟨items, tail, .inr hitems, htail, he⟩

theorem leads_firstKey (h : advance .firstKey frames c after = .ok step) (hl : Leads step c cs) :
    Left .firstKey frames cs := by
  rintro outer rfl
  simp only [advance] at h
  split_ifs at h with hblank hclose hquote
  · cases h
    obtain ⟨_, hrest, rfl⟩ := hl
    obtain ⟨inside, tail, hinside, htail, rfl⟩ := hrest outer rfl
    exact ⟨c :: inside, tail, hinside.imp (·.cons hblank) (written_members_cons hblank), htail, rfl⟩
  · cases h
    obtain ⟨tail, htail, rfl⟩ := leads_close hl
    exact ⟨[], tail, .inl blanks_nil, htail, hclose ▸ rfl⟩
  · cases h
    obtain ⟨_, ⟨_, _, ⟨body, rest, hbody, hrest, rfl⟩, hclosing, rfl⟩, rfl⟩ := hl
    obtain ⟨members, tail, hmembers, htail, he⟩ := hclosing.members blanks_nil hbody hrest
    exact ⟨members, tail, .inr hmembers, htail, by simpa [hquote] using he⟩

theorem leads_key (h : advance .key frames c after = .ok step) (hl : Leads step c cs) :
    Behind frames (Rest .key) cs := by
  simp only [advance] at h
  split_ifs at h with hblank hquote <;> cases h <;> refine .of_more hl rfl ?_
  · rintro _ ⟨before, body, tail, hbefore, hbody, htail, rfl⟩
    exact ⟨c :: before, body, tail, hbefore.cons hblank, hbody, htail, rfl⟩
  · rintro _ ⟨body, tail, hbody, htail, rfl⟩
    exact ⟨[], body, tail, blanks_nil, hbody, htail, hquote ▸ rfl⟩

theorem leads_colon (h : advance .colon frames c after = .ok step) (hl : Leads step c cs) :
    Behind frames (Rest .colon) cs := by
  simp only [advance] at h
  split_ifs at h with hblank hcolon <;> cases h <;> refine .of_more hl rfl ?_
  · rintro _ ⟨gap, before, value, hgap, hbefore, hvalue, rfl⟩
    exact ⟨c :: gap, before, value, hgap.cons hblank, hbefore, hvalue, rfl⟩
  · rintro _ ⟨before, value, hbefore, hvalue, rfl⟩
    exact ⟨[], before, value, blanks_nil, hbefore, hvalue, hcolon ▸ rfl⟩

/-! #### Texts -/

variable {isKey : Bool}

theorem leads_inText (h : advance (.inText isKey) frames c after = .ok step) (hl : Leads step c cs) :
    Behind frames (Rest (.inText isKey)) cs := by
  simp only [advance] at h
  split_ifs at h with hquote hback hcontrol <;> cases h
  · cases isKey with
    | true => exact .of_more hl rfl fun tail htail => ⟨[], tail, .nil, htail, hquote ▸ rfl⟩
    | false =>
      obtain ⟨tail, htail, rfl⟩ := leads_close hl
      exact ⟨[c], tail, ⟨[], [], .nil, rfl, hquote ▸ rfl⟩, htail, rfl⟩
  · refine .of_more hl rfl ?_
    rintro _ ⟨body, tail, hbody, htail, rfl⟩
    exact ⟨c :: body, tail, hback ▸ hbody, htail, rfl⟩
  · refine .of_more hl rfl ?_
    rintro _ ⟨body, tail, hbody, htail, rfl⟩
    exact ⟨c :: body, tail, .plain hquote hback (Nat.le_of_not_lt hcontrol) hbody, htail, rfl⟩

theorem leads_escaped (h : advance (.escaped isKey) frames c after = .ok step) (hl : Leads step c cs) :
    Behind frames (Rest (.escaped isKey)) cs := by
  simp only [advance] at h
  split_ifs at h with hunit hfour hshort <;> cases h <;> refine .of_more hl rfl ?_
  · rintro _ ⟨ds, body, tail, hlength, hds, hbody, htail, rfl⟩
    exact ⟨c :: (ds ++ body), tail, hunit ▸ .of_digits hlength hds hbody, htail, by simp⟩
  · rintro _ ⟨body, tail, hbody, htail, rfl⟩
    exact ⟨c :: body, tail, .short hshort hbody, htail, rfl⟩

theorem leads_hex {left : Nat} (h : advance (.hex isKey left) frames c after = .ok step) (hl : Leads step c cs) :
    Behind frames (Rest (.hex isKey left)) cs := by
  simp only [advance] at h
  split_ifs at h with hnone hmore <;> cases h <;> refine .of_more hl rfl ?_ <;>
    have hd : (Text.Hex.digit? c).isSome = true := by simpa [Option.isSome_iff_ne_none] using hnone
  · rintro _ ⟨ds, body, tail, hlength, hds, hbody, htail, rfl⟩
    refine ⟨c :: ds, body, tail, ?_, List.forall_mem_cons.mpr ⟨hd, hds⟩, hbody, htail, rfl⟩
    rw [List.length_cons, hlength]
    omega
  · rintro _ ⟨body, tail, hbody, htail, rfl⟩
    refine ⟨[c], body, tail, ?_, by simpa using hd, hbody, htail, rfl⟩
    rw [List.length_singleton]
    omega

/-! #### Numbers -/

theorem leads_sign (h : advance .sign frames c after = .ok step) (hl : Leads step c cs) :
    Behind frames (Rest .sign) cs := by
  simp only [advance] at h
  split_ifs at h with hzero hdigit <;> cases h <;> refine .of_more hl rfl ?_
  · rintro _ ⟨fraction, exponent, hfraction, hexponent, rfl⟩
    exact ⟨['0'], fraction, exponent, .inl rfl, hfraction, hexponent, hzero ▸ rfl⟩
  · rintro _ ⟨ds, fraction, exponent, hds, hfraction, hexponent, rfl⟩
    exact ⟨c :: ds, fraction, exponent, .inr ⟨hds.digits hdigit, by simpa using hzero⟩, hfraction, hexponent, rfl⟩

/-- A point or the mark of an exponent behind the digits of a whole number. -/
theorem leads_mark {phase : Phase} (hp : phase = .point ∨ phase = .exponent)
    (hc : if phase = .point then c = '.' else c = 'e' ∨ c = 'E') (hl : Leads (.more phase frames) c cs) :
    Behind frames (Rest .zero) cs := by
  rcases hp with rfl | rfl <;> refine .of_more hl rfl ?_
  · rintro _ ⟨ds, exponent, hds, hexponent, rfl⟩
    exact ⟨c :: ds, exponent, .inr ⟨ds, hds, hc ▸ rfl⟩, hexponent, rfl⟩
  · rintro _ ⟨sign, ds, hsign, hds, rfl⟩
    exact ⟨[], c :: (sign ++ ds), .inl rfl, .inr ⟨c, sign, ds, hc, hsign, hds, rfl⟩, rfl⟩

theorem leads_zero (h : advance .zero frames c after = .ok step) (hl : Leads step c cs) :
    Behind frames (Rest .zero) cs := by
  simp only [advance] at h
  split_ifs at h with hpoint hmark hdigit
  · cases h
    exact leads_mark (.inl rfl) hpoint hl
  · cases h
    exact leads_mark (.inr rfl) hmark hl
  · exact .of_separate h hl ⟨[], [], .inl rfl, .inl rfl, rfl⟩

theorem leads_whole (h : advance .whole frames c after = .ok step) (hl : Leads step c cs) :
    Behind frames (Rest .whole) cs := by
  have hzero : Behind frames (Rest .zero) cs → Behind frames (Rest .whole) cs := by
    refine fun h => h.imp ?_
    rintro _ ⟨fraction, exponent, hfraction, hexponent, rfl⟩
    exact ⟨[], fraction, exponent, by simp [AllDigits], hfraction, hexponent, rfl⟩
  simp only [advance] at h
  split_ifs at h with hdigit hpoint hmark
  · cases h
    refine .of_more hl rfl ?_
    rintro _ ⟨ds, fraction, exponent, hds, hfraction, hexponent, rfl⟩
    exact ⟨c :: ds, fraction, exponent, hds.cons hdigit, hfraction, hexponent, rfl⟩
  · cases h
    exact hzero (leads_mark (.inl rfl) hpoint hl)
  · cases h
    exact hzero (leads_mark (.inr rfl) hmark hl)
  · exact hzero (.of_separate h hl ⟨[], [], .inl rfl, .inl rfl, rfl⟩)

theorem leads_point (h : advance .point frames c after = .ok step) (hl : Leads step c cs) :
    Behind frames (Rest .point) cs := by
  simp only [advance] at h
  split_ifs at h with hdigit
  cases h
  refine .of_more hl rfl ?_
  rintro _ ⟨ds, exponent, hds, hexponent, rfl⟩
  exact ⟨c :: ds, exponent, hds.digits hdigit, hexponent, rfl⟩

theorem leads_fraction (h : advance .fraction frames c after = .ok step) (hl : Leads step c cs) :
    Behind frames (Rest .fraction) cs := by
  simp only [advance] at h
  split_ifs at h with hdigit hmark
  · cases h
    refine .of_more hl rfl ?_
    rintro _ ⟨ds, exponent, hds, hexponent, rfl⟩
    exact ⟨c :: ds, exponent, hds.cons hdigit, hexponent, rfl⟩
  · cases h
    refine .of_more hl rfl ?_
    rintro _ ⟨sign, ds, hsign, hds, rfl⟩
    exact ⟨[], c :: (sign ++ ds), by simp [AllDigits], .inr ⟨c, sign, ds, hmark, hsign, hds, rfl⟩, rfl⟩
  · exact .of_separate h hl ⟨[], [], by simp [AllDigits], .inl rfl, rfl⟩

theorem leads_exponent (h : advance .exponent frames c after = .ok step) (hl : Leads step c cs) :
    Behind frames (Rest .exponent) cs := by
  simp only [advance] at h
  split_ifs at h with hsign hdigit <;> cases h <;> refine .of_more hl rfl fun ds hds => ?_
  · refine ⟨[c], ds, ?_, hds, rfl⟩
    rcases hsign with rfl | rfl <;> simp
  · exact ⟨[], c :: ds, .inl rfl, AllDigits.digits hdigit hds, rfl⟩

theorem leads_exponentSign (h : advance .exponentSign frames c after = .ok step) (hl : Leads step c cs) :
    Behind frames (Rest .exponentSign) cs := by
  simp only [advance] at h
  split_ifs at h with hdigit
  cases h
  exact .of_more hl rfl fun ds hds => AllDigits.digits hdigit hds

theorem leads_power (h : advance .power frames c after = .ok step) (hl : Leads step c cs) :
    Behind frames (Rest .power) cs := by
  simp only [advance] at h
  split_ifs at h with hdigit
  · cases h
    exact .of_more hl rfl fun ds hds => AllDigits.cons hdigit hds
  · exact .of_separate h hl (by simp [Rest, AllDigits])

theorem leads_advance {phase : Phase} (h : advance phase frames c after = .ok step) (hl : Leads step c cs) :
    Left phase frames cs := by
  cases phase with
  | value => exact leads_value h hl
  | firstItem => exact leads_firstItem h hl
  | firstKey => exact leads_firstKey h hl
  | key => exact leads_key h hl
  | colon => exact leads_colon h hl
  | separator => exact .of_separate h hl rfl
  | word left => exact leads_word h hl
  | inText isKey => exact leads_inText h hl
  | escaped isKey => exact leads_escaped h hl
  | hex isKey left => exact leads_hex h hl
  | sign => exact leads_sign h hl
  | zero => exact leads_zero h hl
  | whole => exact leads_whole h hl
  | point => exact leads_point h hl
  | fraction => exact leads_fraction h hl
  | exponent => exact leads_exponent h hl
  | exponentSign => exact leads_exponentSign h hl
  | power => exact leads_power h hl

end Phases

/-! ### Whole values -/

/-- Only a number may end with the text. -/
theorem left_stop {phase : Phase} (h : stop phase frames = .ok ()) : Left phase frames [] := by
  have hframes : ∀ {fault : Fault}, (if frames.isEmpty then .ok () else .error fault : Except Fault Unit) = .ok () →
      Closing frames [] := by
    intro fault h
    split at h
    · rename_i he
      rw [List.isEmpty_iff.mp he]
      rfl
    · cases h
  cases phase with
  | zero => exact (hframes h).behind ⟨[], [], .inl rfl, .inl rfl, rfl⟩
  | whole => exact (hframes h).behind ⟨[], [], [], by simp [AllDigits], .inl rfl, .inl rfl, rfl⟩
  | fraction => exact (hframes h).behind ⟨[], [], by simp [AllDigits], .inl rfl, rfl⟩
  | power => exact (hframes h).behind (by simp [Rest, AllDigits])
  | _ => cases h

/-- What is passed over is what was demanded. -/
theorem scan_sound {phase : Phase} {rest : List Char} (h : scan phase frames cs = .ok rest) :
    ∃ passed, Left phase frames passed ∧ cs = passed ++ rest := by
  induction cs generalizing phase frames with
  | nil =>
    obtain ⟨_, hstop, rfl⟩ := map_ok.mp h
    exact ⟨[], left_stop hstop, rfl⟩
  | cons c cs ih =>
    simp only [scan] at h
    cases hadvance : advance phase frames c cs with
    | error fault => simp [hadvance] at h
    | ok step =>
      simp only [hadvance] at h
      cases step with
      | more phase' frames' =>
        obtain ⟨passed, hpassed, rfl⟩ := ih h
        exact ⟨c :: passed, leads_advance hadvance ⟨passed, hpassed, rfl⟩, rfl⟩
      | last =>
        cases h
        exact ⟨[c], leads_advance hadvance rfl, rfl⟩
      | before =>
        cases h
        exact ⟨[], leads_advance hadvance rfl, rfl⟩

theorem skip_sound {rest : List Char} (h : skip cs = .ok rest) :
    ∃ before value, Blanks before ∧ Valid value ∧ cs = before ++ (value ++ rest) := by
  obtain ⟨_, ⟨_, _, ⟨before, value, hbefore, hvalue, rfl⟩, rfl, rfl⟩, rfl⟩ := scan_sound h
  exact ⟨before, value, hbefore, hvalue, by simp⟩

theorem skipBlank_split (cs : List Char) : ∃ before, Blanks before ∧ cs = before ++ skipBlank cs :=
  ⟨cs.takeWhile isBlank, List.all_eq_true.mp List.all_takeWhile, (List.takeWhile_append_dropWhile ..).symm⟩

theorem read_sound {s : String} {rest : List Char} (h : read cs = .ok (s, rest)) :
    ∃ before, Blanks before ∧ Valid s.toList ∧ cs = before ++ (s.toList ++ rest) := by
  obtain ⟨_, hskip, h⟩ := bind_ok.mp h
  cases h
  obtain ⟨before, value, hbefore, hvalue, he⟩ := skip_sound hskip
  obtain ⟨blanks, hblanks, hcs⟩ := skipBlank_split cs
  -- The scan starts behind the blanks, so it meets none before the value.
  have hstart : skipBlank cs = value ++ rest := by
    have hagain : skipBlank (skipBlank cs) = skipBlank cs := List.dropWhile_idempotent ..
    obtain ⟨c, tail, rfl, hc, _⟩ := hvalue.head
    rw [← hagain, he, skipBlank_append hbefore, List.cons_append, skipBlank_cons hc]
  have htaken : (skipBlank cs).take ((skipBlank cs).length - rest.length) = value := by
    rw [hstart]
    simp
  rw [htaken, String.toList_ofList]
  exact ⟨blanks, hblanks, hvalue, hstart ▸ hcs⟩

/-- The documents that are kept as text are those of one JSON value with blanks around it. -/
theorem document_eq_ok_iff {s t : String} :
    document s = .ok t ↔ ∃ before after, Blanks before ∧ Valid t.toList ∧ Blanks after ∧
      s.toList = before ++ (t.toList ++ after) := by
  constructor
  · intro h
    obtain ⟨⟨_, after⟩, hread, h⟩ := bind_ok.mp h
    obtain ⟨before, hbefore, hvalue, he⟩ := read_sound hread
    obtain ⟨blanks, hblanks, hafter⟩ := skipBlank_split after
    dsimp only at h
    split at h
    · rename_i hnil
      cases h
      rw [hnil, List.append_nil] at hafter
      exact ⟨before, after, hbefore, hvalue, hafter ▸ hblanks, he⟩
    · cases h
  · rintro ⟨before, after, hbefore, hvalue, hafter, he⟩
    have hread := read_valid hbefore hvalue (List.append_nil after ▸ hafter.apart apart_nil)
    simp [document, finish, he, hread, bind, Except.bind, skipBlank_blanks hafter]

end Raw

end EventIntake.Json
