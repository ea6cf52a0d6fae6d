import EventIntake.Json.Items
import EventIntake.Proofs.Json.Grammar

/-! What becomes of the elements between brackets and of the members between braces: either each of them takes the
reader on, or the first that is refused stops it. -/
namespace EventIntake.Json
open Grammar

/-! ### Pieces between commas -/

/-- What follows the first piece. -/
def afterFirst : List (List Char) → List Char
  | [] => []
  | piece :: pieces => ',' :: [','].intercalate (piece :: pieces)

theorem intercalate_first (piece : List Char) (pieces : List (List Char)) :
    [','].intercalate (piece :: pieces) = piece ++ afterFirst pieces := by
  cases pieces with
  | nil => simp [afterFirst]
  | cons next pieces => rw [List.intercalate_cons_cons, List.append_assoc, List.singleton_append, afterFirst]

theorem apart_afterFirst (pieces : List (List Char)) {rest : List Char} (h : Apart rest) :
    Apart (afterFirst pieces ++ rest) := by
  cases pieces with
  | nil => exact h
  | cons => exact apart_cons (by simp) _

/-! ### Elements -/

section Items
variable {σ : Type} {step : σ → Reader σ}

/-- The text of an element starts with a character of its own. -/
def Opens (text : List Char) : Prop := ∃ c cs, text = c :: cs ∧ isBlank c = false ∧ c ≠ ']'

/-- An element takes the reader from one state to another. -/
structure Consumes (step : σ → Reader σ) (text : List Char) (s s' : σ) : Prop where
  opens : Opens text
  read : ∀ rest, Apart rest → step s (text ++ rest) = .ok (s', rest)

inductive ConsumesAll (step : σ → Reader σ) : List (List Char) → σ → σ → Prop
  | nil {s : σ} : ConsumesAll step [] s s
  | cons {text : List Char} {texts : List (List Char)} {s s' s'' : σ} :
      Consumes step text s s' → ConsumesAll step texts s' s'' → ConsumesAll step (text :: texts) s s''

theorem itemsUpTo_item {text : List Char} {s s' : σ} (h : Consumes step text s s') (fuel : Nat) {rest : List Char}
    (hr : Apart rest) : itemsUpTo step (fuel + 1) true s (text ++ rest) = itemsUpTo step fuel false s' rest := by
  have hread := h.read rest hr
  obtain ⟨c, cs, rfl, hc, hbracket⟩ := h.opens
  rw [List.cons_append] at hread ⊢
  simp [itemsUpTo, nextItem, skipBlank_cons hc, hbracket, hread, bind, Except.bind]

theorem itemsUpTo_comma {text : List Char} (h : Opens text) (texts : List (List Char)) (fuel : Nat) (s : σ)
    (rest : List Char) :
    itemsUpTo step fuel false s (',' :: ([','].intercalate (text :: texts) ++ rest)) =
      itemsUpTo step fuel true s ([','].intercalate (text :: texts) ++ rest) := by
  obtain ⟨c, cs, rfl, hc, hbracket⟩ := h
  have hcomma : isBlank ',' = false := rfl
  rw [intercalate_first]
  cases fuel with
  | zero => rfl
  | succ fuel => simp [itemsUpTo, nextItem, skipBlank_cons hc, skipBlank_cons hcomma, hbracket]

theorem ConsumesAll.opens {text : List Char} {texts : List (List Char)} {s s' : σ}
    (h : ConsumesAll step (text :: texts) s s') : Opens text := by
  cases h with
  | cons h _ => exact h.opens

theorem itemsUpTo_items {text : List Char} {texts : List (List Char)} {s s' : σ}
    (h : ConsumesAll step (text :: texts) s s') {fuel : Nat} (hf : texts.length < fuel) (rest : List Char) :
    itemsUpTo step (fuel + 1) true s ([','].intercalate (text :: texts) ++ ']' :: rest) = .ok (s', ']' :: rest) := by
  obtain ⟨fuel, rfl⟩ := Nat.exists_eq_add_one_of_ne_zero (Nat.ne_zero_of_lt hf)
  induction texts generalizing text s fuel with
  | nil =>
    obtain _ | ⟨hfirst, ⟨⟩⟩ := h
    rw [List.intercalate_singleton, itemsUpTo_item hfirst _ (apart_cons (by simp) rest)]
    rfl
  | cons next texts ih =>
    obtain _ | ⟨hfirst, hothers⟩ := h
    rw [List.length_cons] at hf
    obtain ⟨fuel, rfl⟩ := Nat.exists_eq_add_one_of_ne_zero (Nat.ne_zero_of_lt (Nat.lt_of_succ_lt_succ hf))
    rw [List.intercalate_cons_cons, List.append_assoc, List.append_assoc, List.singleton_append,
      itemsUpTo_item hfirst _ (apart_cons (by simp) _), itemsUpTo_comma hothers.opens]
    exact ih hothers fuel (by omega)

theorem ConsumesAll.length_le {texts : List (List Char)} {s s' : σ} (h : ConsumesAll step texts s s') :
    texts.length ≤ ([','].intercalate texts).length := by
  induction h with
  | nil => exact Nat.le_refl 0
  | @cons text texts _ _ _ hfirst hothers ih =>
    obtain ⟨c, cs, rfl, _⟩ := hfirst.opens
    cases texts with
    | nil => simp
    | cons next texts =>
      have hsingle : [','].length = 1 := rfl
      rw [List.intercalate_cons_cons, List.length_cons, List.length_append, List.length_append, hsingle]
      omega

/-- Reading the elements takes the reader through its states and past the closing bracket. -/
theorem items_written {texts : List (List Char)} {s s' : σ} (h : ConsumesAll step texts s s') (rest : List Char) :
    items step s ([','].intercalate texts ++ ']' :: rest) = .ok (s', rest) := by
  have hfuel := h.length_le
  have hitems : itemsUpTo step (([','].intercalate texts ++ ']' :: rest).length + 1) true s
      ([','].intercalate texts ++ ']' :: rest) = .ok (s', ']' :: rest) := by
    cases texts with
    | nil =>
      obtain ⟨⟩ := h
      rfl
    | cons text texts =>
      refine itemsUpTo_items h ?_ rest
      rw [List.length_cons] at hfuel
      rw [List.length_append, List.length_cons]
      omega
  simp only [items, hitems, bind, Except.bind]
  rfl

/-- An element among others that the reader refuses, those before it being read. -/
inductive RefusesOne (step : σ → Reader σ) : List (List Char) → σ → Prop
  | here {text : List Char} {texts : List (List Char)} {s : σ} :
      Opens text → (∀ rest, Apart rest → ∃ fault, step s (text ++ rest) = .error fault) →
      RefusesOne step (text :: texts) s
  | later {text : List Char} {texts : List (List Char)} {s s' : σ} :
      Consumes step text s s' → RefusesOne step texts s' → RefusesOne step (text :: texts) s

theorem itemsUpTo_refused {texts : List (List Char)} {s : σ} (h : RefusesOne step texts s) (fuel : Nat)
    (rest : List Char) :
    ∃ fault, itemsUpTo step fuel true s ([','].intercalate texts ++ ']' :: rest) = .error fault := by
  induction h generalizing fuel with
  | @here text texts s hopens hrefused =>
    cases fuel with
    | zero => exact ⟨_, rfl⟩
    | succ fuel =>
      have hclose : Apart (']' :: rest) := apart_cons (by simp) rest
      obtain ⟨fault, hfault⟩ := hrefused _ (apart_afterFirst texts hclose)
      obtain ⟨c, cs, rfl, hc, hbracket⟩ := hopens
      refine ⟨fault, ?_⟩
      rw [intercalate_first, List.append_assoc]
      rw [List.cons_append] at hfault ⊢
      simp [itemsUpTo, nextItem, skipBlank_cons hc, hbracket, hfault, bind, Except.bind]
  | @later text texts s s' hfirst hothers ih =>
    cases fuel with
    | zero => exact ⟨_, rfl⟩
    | succ fuel =>
      have hnext : ∃ next others, texts = next :: others ∧ Opens next := by
        cases hothers with
        | here hopens _ => exact ⟨_, _, rfl, hopens⟩
        | later h _ => exact ⟨_, _, rfl, h.opens⟩
      obtain ⟨next, others, rfl, hopens⟩ := hnext
      rw [List.intercalate_cons_cons, List.append_assoc, List.append_assoc, List.singleton_append,
        itemsUpTo_item hfirst _ (apart_cons (by simp) _), itemsUpTo_comma hopens]
      exact ih fuel

theorem items_refused {texts : List (List Char)} {s : σ} (h : RefusesOne step texts s) (rest : List Char) :
    ∃ fault, items step s ([','].intercalate texts ++ ']' :: rest) = .error fault := by
  obtain ⟨fault, hfault⟩ := itemsUpTo_refused h _ rest
  refine ⟨fault, ?_⟩
  rw [items, hfault]
  rfl

end Items

/-! ### Members -/

theorem nextKey_blanks {blanks : List Char} (hb : Blanks blanks) (first : Bool) (cs : List Char) :
    nextKey first (blanks ++ cs) = nextKey first cs := by
  rw [nextKey, nextKey, skipBlank_append hb]

theorem nextKey_text {key : List Char} {name : String} (h : TextOf name key) (rest : List Char) :
    nextKey true (key ++ rest) = .ok (some name, rest) := by
  obtain ⟨body, hbody, rfl⟩ := h
  have hquote : isBlank '"' = false := rfl
  simp only [List.cons_append, List.append_assoc, nextKey, skipBlank_cons hquote]
  simp [nextKey.key, hbody.text, bind, Except.bind]

theorem nextKey_comma {key : List Char} {body : Shape} (h : Padded (Quoted body) key) (rest : List Char) :
    nextKey false (',' :: (key ++ rest)) = nextKey true (key ++ rest) := by
  obtain ⟨before, _, after, hbefore, ⟨body, _, rfl⟩, _, rfl⟩ := h
  have hquote : isBlank '"' = false := rfl
  have hcomma : isBlank ',' = false := rfl
  simp [nextKey, skipBlank_append hbefore, skipBlank_cons hcomma, skipBlank_cons hquote]

theorem colon_blanks {blanks : List Char} (hb : Blanks blanks) (rest : List Char) :
    colon (blanks ++ ':' :: rest) = .ok rest := by
  rw [colon, skipBlank_append hb]
  rfl

section Members
variable {σ : Type} {step : σ → String → Reader σ}

/-- A member takes the reader from one state to another. -/
def Takes (step : σ → String → Reader σ) (m : String × Shape) (s s' : σ) : Prop :=
  ∀ gap before value rest, Blanks gap → Blanks before → m.2 value → Apart rest →
    step s m.1 (gap ++ ':' :: (before ++ (value ++ rest))) = .ok (s', rest)

inductive TakesAll (step : σ → String → Reader σ) : List (String × Shape) → σ → σ → Prop
  | nil {s : σ} : TakesAll step [] s s
  | cons {m : String × Shape} {ms : List (String × Shape)} {s s' s'' : σ} :
      Takes step m s s' → TakesAll step ms s' s'' → TakesAll step (m :: ms) s s''

theorem membersUpTo_blanks {blanks : List Char} (hb : Blanks blanks) (fuel : Nat) (first : Bool) (s : σ)
    (cs : List Char) : membersUpTo step fuel first s (blanks ++ cs) = membersUpTo step fuel first s cs := by
  cases fuel with
  | zero => rfl
  | succ fuel => rw [membersUpTo, membersUpTo, nextKey_blanks hb]

/-- The key of a member is read up to the blanks before the colon. -/
theorem Grammar.Member.key {m : String × Shape} {cs : List Char} (h : Member m cs) :
    ∃ gap before value after, Blanks gap ∧ Blanks before ∧ m.2 value ∧ Blanks after ∧ ∀ rest,
      nextKey true (cs ++ rest) = .ok (some m.1, gap ++ ':' :: (before ++ (value ++ (after ++ rest)))) := by
  obtain ⟨_, _, hname, htext, rfl⟩ := h
  obtain ⟨ahead, key, gap, hahead, hkey, hgap, rfl⟩ := hname
  obtain ⟨before, value, after, hbefore, hvalue, hafter, rfl⟩ := htext
  refine ⟨gap, before, value, after, hgap, hbefore, hvalue, hafter, fun rest => ?_⟩
  simp only [List.append_assoc, List.cons_append]
  rw [nextKey_blanks hahead, nextKey_text hkey]

/-- A member is read up to the blanks behind its value. -/
theorem Grammar.Member.read {m : String × Shape} {cs : List Char} (h : Member m cs) {s s' : σ}
    (hs : Takes step m s s') : ∃ blanks, Blanks blanks ∧ ∀ rest, Apart rest → ∃ afterKey,
      nextKey true (cs ++ rest) = .ok (some m.1, afterKey) ∧ step s m.1 afterKey = .ok (s', blanks ++ rest) := by
  obtain ⟨gap, before, value, after, hgap, hbefore, hvalue, hafter, hkey⟩ := h.key
  exact ⟨after, hafter, fun rest hr => ⟨_, hkey rest, hs gap before value _ hgap hbefore hvalue (hafter.apart hr)⟩⟩

/-- Behind a comma the next member is read like the first. -/
theorem membersUpTo_next {key : List Char} {body : Shape} (h : Padded (Quoted body) key) (fuel : Nat) (s : σ)
    (rest : List Char) :
    membersUpTo step fuel false s (',' :: (key ++ rest)) = membersUpTo step fuel true s (key ++ rest) := by
  cases fuel with
  | zero => rfl
  | succ fuel => rw [membersUpTo, membersUpTo, nextKey_comma h]

theorem membersUpTo_comma {ms : List (String × Shape)} {cs : List Char} (h : Members ms cs) (fuel : Nat) (s : σ)
    (rest : List Char) :
    membersUpTo step fuel false s (',' :: (cs ++ rest)) = membersUpTo step fuel true s (cs ++ rest) := by
  have hfirst : ∃ m first after, Member m first ∧ cs = first ++ after := by
    cases h with
    | one h => exact ⟨_, cs, [], h, (List.append_nil cs).symm⟩
    | more h _ => exact ⟨_, _, _, h, rfl⟩
  obtain ⟨m, _, after, ⟨key, value, hkey, _, rfl⟩, rfl⟩ := hfirst
  rw [List.append_assoc, List.append_assoc, membersUpTo_next hkey]

theorem membersUpTo_end (fuel : Nat) (first : Bool) (s : σ) (rest : List Char) :
    membersUpTo step (fuel + 1) first s ('}' :: rest) = .ok (s, '}' :: rest) := by
  cases first <;> rfl

theorem membersUpTo_member {m : String × Shape} {cs : List Char} (h : Member m cs) {s s' : σ}
    (hs : Takes step m s s') (fuel : Nat) {rest : List Char} (hr : Apart rest) :
    membersUpTo step (fuel + 1) true s (cs ++ rest) = membersUpTo step fuel false s' rest := by
  obtain ⟨blanks, hblanks, hread⟩ := h.read hs
  obtain ⟨afterKey, hkey, hvalue⟩ := hread rest hr
  rw [membersUpTo, hkey]
  simp only [bind, Except.bind, hvalue]
  exact membersUpTo_blanks hblanks fuel false s' rest

/-- Reading the members takes the reader through its states, up to the closing brace. -/
theorem membersUpTo_members {ms : List (String × Shape)} {cs : List Char} (h : Members ms cs) {s s' : σ}
    (hs : TakesAll step ms s s') {fuel : Nat} (hf : ms.length < fuel) (rest : List Char) :
    membersUpTo step fuel true s (cs ++ '}' :: rest) = .ok (s', '}' :: rest) := by
  have hbrace : Apart ('}' :: rest) := apart_cons (by simp) rest
  induction h generalizing s fuel with
  | one hm =>
    obtain _ | ⟨htakes, ⟨⟩⟩ := hs
    rw [List.length_singleton] at hf
    obtain ⟨fuel, rfl⟩ := Nat.exists_eq_add_of_le' hf
    rw [membersUpTo_member hm htakes _ hbrace]
    exact membersUpTo_end fuel false s' rest
  | @more m ms cs others hm hms ih =>
    obtain _ | ⟨htakes, hothers⟩ := hs
    rw [List.length_cons] at hf
    obtain ⟨fuel, rfl⟩ := Nat.exists_eq_add_one_of_ne_zero (Nat.ne_zero_of_lt hf)
    have hcomma : Apart (',' :: (others ++ '}' :: rest)) := apart_cons (by simp) _
    rw [List.append_assoc, List.cons_append, membersUpTo_member hm htakes _ hcomma, membersUpTo_comma hms]
    exact ih hothers (by omega)

theorem membersUpTo_tail {ms : List (String × Shape)} {cs : List Char} (h : Tail ms cs) {s s' : σ}
    (hs : TakesAll step ms s s') {fuel : Nat} (hf : ms.length < fuel) (rest : List Char) :
    membersUpTo step fuel false s (cs ++ '}' :: rest) = .ok (s', '}' :: rest) := by
  cases h with
  | none =>
    obtain ⟨⟩ := hs
    obtain ⟨fuel, rfl⟩ := Nat.exists_eq_add_one_of_ne_zero (Nat.ne_zero_of_lt hf)
    exact membersUpTo_end fuel false s rest
  | more h => rw [List.cons_append, membersUpTo_comma h, membersUpTo_members h hs hf]

/-- A member that the reader refuses. -/
def Rejects (step : σ → String → Reader σ) (m : String × Shape) (s : σ) : Prop :=
  ∀ gap before value rest, Blanks gap → Blanks before → m.2 value → Apart rest →
    ∃ fault, step s m.1 (gap ++ ':' :: (before ++ (value ++ rest))) = .error fault

/-- A member among others that the reader refuses, those before it being read. -/
inductive RejectsOne (step : σ → String → Reader σ) : List (String × Shape) → σ → Prop
  | here {m : String × Shape} {ms : List (String × Shape)} {s : σ} : Rejects step m s → RejectsOne step (m :: ms) s
  | later {m : String × Shape} {ms : List (String × Shape)} {s s' : σ} :
      Takes step m s s' → RejectsOne step ms s' → RejectsOne step (m :: ms) s

theorem Grammar.Member.rejected {m : String × Shape} {cs : List Char} (h : Member m cs) {s : σ}
    (hs : Rejects step m s) {rest : List Char} (hr : Apart rest) : ∃ afterKey fault,
      nextKey true (cs ++ rest) = .ok (some m.1, afterKey) ∧ step s m.1 afterKey = .error fault := by
  obtain ⟨gap, before, value, after, hgap, hbefore, hvalue, hafter, hkey⟩ := h.key
  obtain ⟨fault, hfault⟩ := hs gap before value _ hgap hbefore hvalue (hafter.apart hr)
  exact ⟨_, fault, hkey rest, hfault⟩

theorem membersUpTo_rejects {m : String × Shape} {cs : List Char} (h : Member m cs) {s : σ}
    (hs : Rejects step m s) (fuel : Nat) {rest : List Char} (hr : Apart rest) :
    ∃ fault, membersUpTo step fuel true s (cs ++ rest) = .error fault := by
  cases fuel with
  | zero => exact ⟨_, rfl⟩
  | succ fuel =>
    obtain ⟨afterKey, fault, hkey, hfault⟩ := h.rejected hs hr
    refine ⟨fault, ?_⟩
    rw [membersUpTo, hkey]
    simp only [bind, Except.bind, hfault]

theorem membersUpTo_rejected {ms : List (String × Shape)} {cs : List Char} (h : Members ms cs) {s : σ}
    (hs : RejectsOne step ms s) (fuel : Nat) (rest : List Char) :
    ∃ fault, membersUpTo step fuel true s (cs ++ '}' :: rest) = .error fault := by
  have hbrace : Apart ('}' :: rest) := apart_cons (by simp) rest
  induction h generalizing s fuel with
  | one hm =>
    cases hs with
    | here h => exact membersUpTo_rejects hm h fuel hbrace
    | later _ h => cases h
  | @more m ms cs others hm hms ih =>
    have hcomma : Apart (',' :: (others ++ '}' :: rest)) := apart_cons (by simp) _
    rw [List.append_assoc, List.cons_append]
    cases hs with
    | here h => exact membersUpTo_rejects hm h fuel hcomma
    | later htakes hothers =>
      cases fuel with
      | zero => exact ⟨_, rfl⟩
      | succ fuel =>
        rw [membersUpTo_member hm htakes _ hcomma, membersUpTo_comma hms]
        exact ih hothers fuel

theorem membersUpTo_tail_rejected {ms : List (String × Shape)} {cs : List Char} (h : Tail ms cs) {s : σ}
    (hs : RejectsOne step ms s) (fuel : Nat) (rest : List Char) :
    ∃ fault, membersUpTo step fuel false s (cs ++ '}' :: rest) = .error fault := by
  cases h with
  | none => cases hs
  | more h =>
    rw [List.cons_append, membersUpTo_comma h]
    exact membersUpTo_rejected h hs fuel rest

theorem membersUpTo_object {ms : List (String × Shape)} {cs : List Char} (h : Object ms cs) {s s' : σ}
    (hs : TakesAll step ms s s') : ∃ inside, cs = '{' :: inside ∧ ∀ rest,
      membersUpTo step ((inside ++ rest).length + 1) true s (inside ++ rest) = .ok (s', '}' :: rest) := by
  cases h with
  | empty hb =>
    obtain ⟨⟩ := hs
    refine ⟨_, rfl, fun rest => ?_⟩
    rw [List.append_assoc, membersUpTo_blanks hb]
    exact membersUpTo_end _ true s rest
  | of hms =>
    refine ⟨_, rfl, fun rest => ?_⟩
    have hfuel := hms.length_le
    rw [List.append_assoc]
    refine membersUpTo_members hms hs ?_ rest
    rw [List.length_append]
    omega

theorem membersUpTo_object_rejected {ms : List (String × Shape)} {cs : List Char} (h : Object ms cs) {s : σ}
    (hs : RejectsOne step ms s) : ∃ inside, cs = '{' :: inside ∧ ∀ fuel rest,
      ∃ fault, membersUpTo step fuel true s (inside ++ rest) = .error fault := by
  cases h with
  | empty _ => cases hs
  | of hms =>
    refine ⟨_, rfl, fun fuel rest => ?_⟩
    rw [List.append_assoc]
    exact membersUpTo_rejected hms hs fuel rest

end Members

theorem endObject_brace (rest : List Char) : endObject ('}' :: rest) = .ok rest := rfl

end EventIntake.Json
