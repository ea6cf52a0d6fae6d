import EventIntake.Json.Items
import EventIntake.Proofs.Json.Lexical
import Mathlib.Data.List.Forall2

/-! The texts of JSON values. Numbers may be of any size, surrogates need no partner, and brackets nest as deeply as they
like. -/
namespace EventIntake.Json.Grammar
open Decimal

/-- What a piece of text may look like. -/
abbrev Shape := List Char → Prop

/-- A piece with blanks around it. -/
def Padded (shape : Shape) : Shape := fun cs =>
  ∃ before inside after, Blanks before ∧ shape inside ∧ Blanks after ∧ cs = before ++ (inside ++ after)

/-! ### Numbers -/

def Digits : Shape := fun cs => cs ≠ [] ∧ ∀ c ∈ cs, isDigit c = true

/-- A zero stands alone before the point. -/
def Whole : Shape := fun cs => cs = ['0'] ∨ Digits cs ∧ cs.head? ≠ some '0'

def Fraction : Shape := fun cs => cs = [] ∨ ∃ ds, Digits ds ∧ cs = '.' :: ds

def Exponent : Shape := fun cs =>
  cs = [] ∨ ∃ mark sign ds, (mark = 'e' ∨ mark = 'E') ∧ (sign = [] ∨ sign = ['+'] ∨ sign = ['-']) ∧ Digits ds ∧
    cs = mark :: (sign ++ ds)

def Numeral : Shape := fun cs =>
  ∃ sign whole fraction exponent, (sign = [] ∨ sign = ['-']) ∧ Whole whole ∧ Fraction fraction ∧ Exponent exponent ∧
    cs = sign ++ (whole ++ (fraction ++ exponent))

theorem Whole.head {cs : List Char} (h : Whole cs) : ∃ c rest, cs = c :: rest ∧ isDigit c = true := by
  rcases h with rfl | ⟨⟨hne, hdigits⟩, _⟩
  · exact ⟨'0', [], rfl, rfl⟩
  · obtain ⟨c, rest, rfl⟩ := List.exists_cons_of_ne_nil hne
    exact ⟨c, rest, rfl, hdigits c (.head _)⟩

theorem Numeral.head {cs : List Char} (h : Numeral cs) :
    ∃ c rest, cs = c :: rest ∧ (c = '-' ∨ isDigit c = true) := by
  obtain ⟨sign, whole, fraction, exponent, hsign, hwhole, _, _, rfl⟩ := h
  obtain ⟨c, rest, rfl, hc⟩ := hwhole.head
  rcases hsign with rfl | rfl
  · exact ⟨c, _, rfl, .inr hc⟩
  · exact ⟨'-', _, rfl, .inl rfl⟩

theorem numeral_toString (n : Int) : Numeral (toString n).toList := by
  refine ⟨if n < 0 then ['-'] else [], (toString n.natAbs).toList, [], [], ?_, ?_, .inl rfl, .inl rfl, ?_⟩
  · split <;> simp
  · rcases toString_cases n.natAbs with ⟨_, hs⟩ | ⟨d, ds, hs, hd, _⟩
    · exact .inl hs
    · refine .inr ⟨⟨by simp, List.all_eq_true.mp (isDigit_toString _)⟩, ?_⟩
      rw [hs]
      simpa using hd
  · rw [List.append_nil, List.append_nil, toString_eq]

/-! ### Texts -/

/-- What may stand between the quotes of a text. -/
inductive Body : Shape
  | nil : Body []
  | plain {c : Char} {body : List Char} : c ≠ '"' → c ≠ '\\' → 0x20 ≤ c.toNat → Body body → Body (c :: body)
  | short {e : Char} {body : List Char} : (shortEscape? e).isSome = true → Body body → Body ('\\' :: e :: body)
  | unit {ds body : List Char} {n : Nat} : HexUnit ds n → Body body → Body ('\\' :: 'u' :: (ds ++ body))

def Quoted (body : Shape) : Shape := fun cs => ∃ inside, body inside ∧ cs = '"' :: (inside ++ ['"'])

/-- A text that spells the given one. -/
def TextOf (s : String) : Shape := Quoted fun body => Spells body s.toList

theorem textOf_writeText (s : String) : TextOf s (writeText s) :=
  ⟨_, spells_written s.toList, rfl⟩

theorem body_of_spells {body cs : List Char} (h : Spells body cs) : Body body := by
  induction h with
  | nil => exact .nil
  | plain hquote hback hcontrol _ ih => exact .plain hquote hback hcontrol ih
  | short he _ ih => exact .short (by simp [he]) ih
  | unit hds _ _ _ ih => exact .unit hds ih
  | pair hds _ hes _ _ ih => exact .unit hds (.unit hes ih)

theorem quoted_writeText (s : String) : Quoted Body (writeText s) :=
  ⟨_, body_of_spells (spells_written s.toList), rfl⟩

/-! ### Values -/

inductive Part
  | value
  /-- The elements between the brackets of a list. -/
  | items
  /-- The members between the braces of an object. -/
  | members
  deriving DecidableEq, Repr

inductive Written : Part → Shape
  | null : Written .value ['n', 'u', 'l', 'l']
  | true : Written .value ['t', 'r', 'u', 'e']
  | false : Written .value ['f', 'a', 'l', 's', 'e']
  | number {cs : List Char} : Numeral cs → Written .value cs
  | text {cs : List Char} : Quoted Body cs → Written .value cs
  | noItems {blanks : List Char} : Blanks blanks → Written .value ('[' :: (blanks ++ [']']))
  | list {cs : List Char} : Written .items cs → Written .value ('[' :: (cs ++ [']']))
  | noMembers {blanks : List Char} : Blanks blanks → Written .value ('{' :: (blanks ++ ['}']))
  | object {cs : List Char} : Written .members cs → Written .value ('{' :: (cs ++ ['}']))
  | item {before value after : List Char} :
      Blanks before → Written .value value → Blanks after → Written .items (before ++ (value ++ after))
  | items {before value after rest : List Char} :
      Blanks before → Written .value value → Blanks after → Written .items rest →
      Written .items (before ++ (value ++ (after ++ ',' :: rest)))
  | member {key before value after : List Char} :
      Padded (Quoted Body) key → Blanks before → Written .value value → Blanks after →
      Written .members (key ++ ':' :: (before ++ (value ++ after)))
  | members {key before value after rest : List Char} :
      Padded (Quoted Body) key → Blanks before → Written .value value → Blanks after → Written .members rest →
      Written .members (key ++ ':' :: (before ++ (value ++ (after ++ ',' :: rest))))

/-- Any JSON value, without blanks around it. -/
def Valid : Shape := Written .value

/-- A value starts with a character of its own. -/
theorem Valid.head {cs : List Char} (h : Valid cs) : ∃ c rest, cs = c :: rest ∧ isBlank c = false ∧ c ≠ ']' := by
  cases h with
  | number h =>
    obtain ⟨c, rest, rfl, rfl | hc⟩ := h.head
    · exact ⟨'-', rest, rfl, rfl, by decide⟩
    · refine ⟨c, rest, rfl, isBlank_digit hc, ?_⟩
      rintro rfl
      cases hc
  | text h =>
    obtain ⟨_, _, rfl⟩ := h
    exact ⟨'"', _, rfl, by decide, by decide⟩
  | _ => exact ⟨_, _, rfl, by decide, by decide⟩

/-! ### Objects with known members -/

def Member (m : String × Shape) : Shape := fun cs =>
  ∃ key value, Padded (TextOf m.1) key ∧ Padded m.2 value ∧ cs = key ++ ':' :: value

inductive Members : List (String × Shape) → Shape
  | one {m : String × Shape} {cs : List Char} : Member m cs → Members [m] cs
  | more {m : String × Shape} {ms : List (String × Shape)} {cs rest : List Char} :
      Member m cs → Members ms rest → Members (m :: ms) (cs ++ ',' :: rest)

/-- What follows the first member. -/
inductive Tail : List (String × Shape) → Shape
  | none : Tail [] []
  | more {ms : List (String × Shape)} {cs : List Char} : Members ms cs → Tail ms (',' :: cs)

/-- An object with the given members in this order. -/
inductive Object : List (String × Shape) → Shape
  | empty {blanks : List Char} : Blanks blanks → Object [] ('{' :: (blanks ++ ['}']))
  | of {ms : List (String × Shape)} {cs : List Char} : Members ms cs → Object ms ('{' :: (cs ++ ['}']))

theorem Members.split {m : String × Shape} {ms : List (String × Shape)} {cs : List Char} (h : Members (m :: ms) cs) :
    ∃ first tail, Member m first ∧ Tail ms tail ∧ cs = first ++ tail := by
  cases h with
  | one h => exact ⟨cs, [], h, .none, (List.append_nil cs).symm⟩
  | more h hms => exact ⟨_, _, h, .more hms, rfl⟩

theorem Tail.apart {ms : List (String × Shape)} {cs : List Char} (h : Tail ms cs) (rest : List Char) :
    Apart (cs ++ '}' :: rest) := by
  cases h <;> exact apart_cons (by simp) _

theorem padded_of {shape : Shape} {cs : List Char} (h : shape cs) : Padded shape cs :=
  ⟨[], cs, [], blanks_nil, h, blanks_nil, (List.append_nil cs).symm⟩

/-- The compact text of an object is one of its texts. -/
theorem object_writeMembers {ms : List (String × Shape)} {texts : List (String × List Char)}
    (h : List.Forall₂ (fun m t => m.1 = t.1 ∧ m.2 t.2) ms texts) : Object ms (writeMembers texts) := by
  have hmember {m : String × Shape} {t : String × List Char} (h : m.1 = t.1 ∧ m.2 t.2) :
      Member m (writeText t.1 ++ ':' :: t.2) := by
    refine ⟨writeText t.1, t.2, padded_of ?_, padded_of h.2, rfl⟩
    rw [h.1]
    exact textOf_writeText t.1
  cases h with
  | nil => exact .empty blanks_nil
  | @cons m t ms texts hm hms =>
    refine .of ?_
    induction hms generalizing m t with
    | nil =>
      rw [List.map_singleton, List.intercalate_singleton]
      exact .one (hmember hm)
    | cons hnext _ ih =>
      rw [List.map_cons, List.map_cons, List.intercalate_cons_cons, List.append_assoc]
      exact .more (hmember hm) (ih hnext)

/-- Members of which the texts are given. -/
def verbatim (texts : List (String × List Char)) : List (String × Shape) := texts.map fun t => (t.1, (· = t.2))

theorem object_verbatim (texts : List (String × List Char)) : Object (verbatim texts) (writeMembers texts) := by
  refine object_writeMembers ?_
  exact List.forall₂_map_left_iff.mpr (List.forall₂_same.mpr fun _ _ => ⟨rfl, rfl⟩)

theorem Members.length_le {ms : List (String × Shape)} {cs : List Char} (h : Members ms cs) :
    ms.length ≤ cs.length := by
  have hmember {m : String × Shape} {cs : List Char} (h : Member m cs) : 1 ≤ cs.length := by
    obtain ⟨key, value, _, _, rfl⟩ := h
    rw [List.length_append, List.length_cons]
    omega
  induction h with
  | one h => exact hmember h
  | more _ _ ih =>
    rw [List.length_cons, List.length_append, List.length_cons]
    omega

theorem Tail.length_le {ms : List (String × Shape)} {cs : List Char} (h : Tail ms cs) : ms.length ≤ cs.length := by
  cases h with
  | none => exact Nat.le_refl 0
  | more h => exact Nat.le_succ_of_le h.length_le

end EventIntake.Json.Grammar
