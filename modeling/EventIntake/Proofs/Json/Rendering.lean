import EventIntake.Proofs.Json.Reading
import Mathlib.Data.List.Perm.Basic

/-! Structures read from objects. The members stand in any order, and further keys hold any values. -/
namespace EventIntake.Json
open Grammar

/-- An object with the given members and others under further keys, in any order. -/
def Grammar.Rendered (known : List String) (ms : List (String × Shape)) : Shape := fun cs =>
  ∃ (further : List String) (all : List (String × Shape)), (∀ key ∈ further, key ∉ known) ∧
    all.Perm (ms ++ further.map fun key => (key, Valid)) ∧ Object all cs

theorem Grammar.Object.rendered {ms : List (String × Shape)} {cs : List Char} (h : Object ms cs)
    (known : List String) : Rendered known ms cs :=
  ⟨[], ms, by simp, by simp, h⟩

namespace Grammar
variable {ms ms' : List (String × Shape)} {cs : List Char}

/-- A member and one of the same key with at least its texts. -/
def Wider (m m' : String × Shape) : Prop := m.1 = m'.1 ∧ ∀ cs, Padded m.2 cs → Padded m'.2 cs

theorem Member.imp {m m' : String × Shape} (h : Member m cs) (hm : Wider m m') : Member m' cs := by
  obtain ⟨key, value, hkey, hvalue, rfl⟩ := h
  exact ⟨key, value, hm.1 ▸ hkey, hm.2 value hvalue, rfl⟩

theorem Members.imp (h : Members ms cs) (hms : List.Forall₂ Wider ms ms') : Members ms' cs := by
  induction h generalizing ms' with
  | one h =>
    obtain _ | ⟨hm, ⟨⟩⟩ := hms
    exact .one (h.imp hm)
  | more h _ ih =>
    obtain _ | ⟨hm, hms⟩ := hms
    exact .more (h.imp hm) (ih hms)

theorem Object.imp (h : Object ms cs) (hms : List.Forall₂ Wider ms ms') : Object ms' cs := by
  cases h with
  | empty hb =>
    obtain ⟨⟩ := hms
    exact .empty hb
  | of h => exact .of (h.imp hms)

theorem Rendered.imp {known : List String} (h : Rendered known ms cs) (hms : List.Forall₂ Wider ms ms') :
    Rendered known ms' cs := by
  obtain ⟨further, all, hfurther, hp, hcs⟩ := h
  have hwider : List.Forall₂ Wider (ms ++ further.map fun key => (key, Valid)) (ms' ++ further.map fun key => (key, Valid)) :=
    List.rel_append hms (List.forall₂_same.mpr fun _ _ => ⟨rfl, fun _ h => h⟩)
  obtain ⟨all', hall, hp'⟩ := List.perm_comp_forall₂ hp hwider
  exact ⟨further, all', hfurther, hp', hcs.imp hall⟩

end Grammar

namespace Values
variable {depth : Nat} {fs : List Field} {values : Values fs}

/-- The text of a member is read as the value of its field. Under a further key it is any value. -/
def Admits (depth : Nat) (m : String × Shape) : (fs : List Field) → Values fs → Prop
  | [], _ => ∀ cs, m.2 cs → Valid cs
  | f :: fs, (a, values) => if m.1 = f.name then f.codec.Reads depth m.2 a else Admits depth m fs values

/-- Fields that are not named have the values that stand for absent ones. -/
def Defaulted (names : List String) : (fs : List Field) → Values fs → Prop
  | [], _ => True
  | f :: fs, (a, values) => (f.name ∉ names → f.absent = some a) ∧ Defaulted names fs values

/-- Members that spell the values of a structure, in the order of its fields. -/
inductive Spelled (depth : Nat) : (fs : List Field) → Values fs → List (String × Shape) → Prop
  | nil : Spelled depth [] () []
  | member {f : Field} {fs : List Field} {a : f.Carrier} {values : Values fs} {shape : Shape}
      {ms : List (String × Shape)} :
      f.codec.Reads depth shape a → Spelled depth fs values ms →
      Spelled depth (f :: fs) (a, values) ((f.name, shape) :: ms)
  | absent {f : Field} {fs : List Field} {a : f.Carrier} {values : Values fs} {ms : List (String × Shape)} :
      f.absent = some a → Spelled depth fs values ms → Spelled depth (f :: fs) (a, values) ms

/-- Members that spell the values of a structure, in any order and among others. -/
structure Given (depth : Nat) (ms : List (String × Shape)) {fs : List Field} (values : Values fs) : Prop where
  admits : ∀ m ∈ ms, Admits depth m fs values
  once : ms.Pairwise fun m m' => m.1 = m'.1 → m.1 ∉ fs.map Field.name
  defaulted : Defaulted (ms.map Prod.fst) fs values

theorem admits_further {key : String} (h : key ∉ fs.map Field.name) : Admits depth (key, Valid) fs values := by
  induction fs with
  | nil => exact fun cs hcs => hcs
  | cons f fs ih =>
    obtain ⟨hne, hfs⟩ := List.ne_and_not_mem_of_not_mem_cons h
    obtain ⟨a, values⟩ := values
    rw [Admits, if_neg hne]
    exact ih hfs

theorem Defaulted.mono {names names' : List String} (h : Defaulted names fs values) (hsub : names ⊆ names') :
    Defaulted names' fs values := by
  induction fs with
  | nil => trivial
  | cons f fs ih => exact ⟨fun hf => h.1 fun hn => hf (hsub hn), ih h.2⟩

theorem Spelled.names {ms : List (String × Shape)} (h : Spelled depth fs values ms) :
    (ms.map Prod.fst).Sublist (fs.map Field.name) := by
  induction h with
  | nil => exact .slnil
  | member _ _ ih => exact ih.cons_cons _
  | absent _ _ ih => exact ih.cons _

theorem Spelled.admits {ms : List (String × Shape)} (h : Spelled depth fs values ms)
    (hn : (fs.map Field.name).Nodup) {m : String × Shape} (hm : m ∈ ms) : Admits depth m fs values := by
  induction h with
  | nil => cases hm
  | @member f fs a values shape ms hread hms ih =>
    obtain ⟨hf, hfs⟩ := List.nodup_cons.mp hn
    rw [Admits]
    rcases List.mem_cons.mp hm with rfl | hm
    · rw [if_pos rfl]
      exact hread
    · have hne : m.1 ≠ f.name := fun he => hf (he ▸ hms.names.subset (List.mem_map_of_mem hm))
      rw [if_neg hne]
      exact ih hfs hm
  | @absent f fs a values ms _ hms ih =>
    obtain ⟨hf, hfs⟩ := List.nodup_cons.mp hn
    have hne : m.1 ≠ f.name := fun he => hf (he ▸ hms.names.subset (List.mem_map_of_mem hm))
    rw [Admits, if_neg hne]
    exact ih hfs hm

theorem Spelled.defaulted {ms : List (String × Shape)} (h : Spelled depth fs values ms) :
    Defaulted (ms.map Prod.fst) fs values := by
  induction h with
  | nil => trivial
  | member _ _ ih => exact ⟨fun hf => absurd (.head _) hf, ih.mono (List.subset_cons_self _ _)⟩
  | absent ha _ ih => exact ⟨fun _ => ha, ih⟩

theorem Spelled.given {ms : List (String × Shape)} (h : Spelled depth fs values ms)
    (hn : (fs.map Field.name).Nodup) : Given depth ms values where
  admits _ hm := h.admits hn hm
  once := (List.pairwise_map.mp (hn.sublist h.names)).imp fun hne he => absurd he hne
  defaulted := h.defaulted

theorem Given.perm {ms ms' : List (String × Shape)} (h : Given depth ms values) (hp : ms.Perm ms') :
    Given depth ms' values where
  admits m hm := h.admits m (hp.mem_iff.mpr hm)
  once := (hp.pairwise_iff fun hk he => he ▸ hk he.symm).mp h.once
  defaulted := h.defaulted.mono (hp.map Prod.fst).subset

theorem Given.further {ms : List (String × Shape)} (h : Given depth ms values) {keys : List String}
    (hkeys : ∀ key ∈ keys, key ∉ fs.map Field.name) :
    Given depth (ms ++ keys.map fun key => (key, Valid)) values where
  admits m hm := by
    rcases List.mem_append.mp hm with hm | hm
    · exact h.admits m hm
    · obtain ⟨key, hkey, rfl⟩ := List.mem_map.mp hm
      exact admits_further (hkeys key hkey)
  once := by
    have hfurther : ∀ m ∈ keys.map fun key => (key, Valid), m.1 ∉ fs.map Field.name := by
      intro m hm
      obtain ⟨key, hkey, rfl⟩ := List.mem_map.mp hm
      exact hkeys key hkey
    refine List.pairwise_append.mpr ⟨h.once, ?_, fun m _ m' hm' he => he ▸ hfurther m' hm'⟩
    exact List.pairwise_of_forall_mem_list fun m hm _ _ _ => hfurther m hm
  defaulted := h.defaulted.mono (by simp)

end Values

namespace Slots
variable {depth : Nat} {fs : List Field} {values : Values fs}

/-- The slots of the named fields filled. -/
def filled (names : List String) : (fs : List Field) → Values fs → Slots fs
  | [], _ => ()
  | f :: fs, (a, values) => (if f.name ∈ names then some a else none, filled names fs values)

theorem filled_nil : filled [] fs values = empty fs := by
  induction fs with
  | nil => rfl
  | cons f fs ih => exact congrArg (Prod.mk none) ih

theorem filled_cons {key : String} (h : key ∉ fs.map Field.name) (names : List String) :
    filled (key :: names) fs values = filled names fs values := by
  induction fs with
  | nil => rfl
  | cons f fs ih =>
    obtain ⟨hne, hfs⟩ := List.ne_and_not_mem_of_not_mem_cons h
    obtain ⟨a, values⟩ := values
    exact congrArg₂ Prod.mk (by simp [hne.symm]) (ih hfs)

theorem complete_filled {names : List String} (h : Values.Defaulted names fs values) :
    complete fs (filled names fs values) = .ok values := by
  induction fs with
  | nil => rfl
  | cons f fs ih =>
    obtain ⟨a, values⟩ := values
    have hslot : (if f.name ∈ names then some a else none).or f.absent = some a := by
      split
      · rfl
      · exact h.1 ‹_›
    rw [filled, complete]
    simp only [hslot, ih h.2]
    rfl

/-- A key that was not met is unknown or fills its slot. -/
theorem lookup_filled {m : String × Shape} {names : List String} (hn : (fs.map Field.name).Nodup)
    (h : values.Admits depth m) (hm : m.1 ∈ fs.map Field.name → m.1 ∉ names) :
    match lookup fs (filled names fs values) m.1 with
    | .unknown => (∀ cs, m.2 cs → Valid cs) ∧ m.1 ∉ fs.map Field.name
    | .taken => False
    | .free fill => ∀ before cs rest, Blanks before → m.2 cs → Apart rest →
      fill depth (before ++ (cs ++ rest)) = .ok (filled (m.1 :: names) fs values, rest) := by
  induction fs with
  | nil => exact ⟨h, by simp⟩
  | cons f fs ih =>
    obtain ⟨a, values⟩ := values
    obtain ⟨hf, hfs⟩ := List.nodup_cons.mp hn
    rw [Values.Admits] at h
    simp only [filled, lookup]
    by_cases hname : m.1 = f.name
    · have hnames : f.name ∉ names := hname ▸ hm (by simp [hname])
      have hothers : filled (f.name :: names) fs values = filled names fs values := filled_cons hf names
      rw [if_pos hname] at h
      simp only [if_pos hname, if_neg hnames, Option.isSome_none, Bool.false_eq_true, if_false]
      intro before cs rest hb hcs hr
      simp only [h before cs rest hb hcs hr, bind, Except.bind, hname, List.mem_cons, true_or, if_true, hothers]
    · rw [if_neg hname] at h
      have hrest := ih hfs h fun hk => hm (List.mem_cons_of_mem _ hk)
      simp only [if_neg hname]
      cases hl : lookup fs (filled names fs values) m.1 with
      | unknown =>
        rw [hl] at hrest
        exact ⟨hrest.1, by simp [hname, hrest.2]⟩
      | taken => rw [hl] at hrest; exact hrest
      | free fill =>
        rw [hl] at hrest
        intro before cs rest hb hcs hr
        simp [hrest before cs rest hb hcs hr, bind, Except.bind, Ne.symm hname]

theorem member_takes {m : String × Shape} {names : List String} (hn : (fs.map Field.name).Nodup)
    (h : values.Admits depth m) (hm : m.1 ∈ fs.map Field.name → m.1 ∉ names) :
    Takes (member fs depth) m (filled names fs values) (filled (m.1 :: names) fs values) := by
  intro gap before cs rest hgap hb hcs hr
  have hlookup := lookup_filled hn h hm
  cases hl : lookup fs (filled names fs values) m.1 with
  | unknown =>
    rw [hl] at hlookup
    simp only [member, hl, colon_blanks hgap, Raw.skip_valid hb (hlookup.1 cs hcs) hr, filled_cons hlookup.2, bind,
      Except.bind]
  | taken =>
    rw [hl] at hlookup
    exact hlookup.elim
  | free fill =>
    rw [hl] at hlookup
    simp only [member, hl, colon_blanks hgap, hlookup before cs rest hb hcs hr, bind, Except.bind]

/-- The members fill the slots of their fields. -/
theorem member_takesAll {ms : List (String × Shape)} (hn : (fs.map Field.name).Nodup)
    (hadmits : ∀ m ∈ ms, values.Admits depth m)
    (honce : ms.Pairwise fun m m' => m.1 = m'.1 → m.1 ∉ fs.map Field.name) (names : List String)
    (hnew : ∀ m ∈ ms, m.1 ∈ fs.map Field.name → m.1 ∉ names) :
    TakesAll (member fs depth) ms (filled names fs values) (filled ((ms.map Prod.fst).reverse ++ names) fs values) := by
  induction ms generalizing names with
  | nil => exact .nil
  | cons m ms ih =>
    obtain ⟨hfirst, honce⟩ := List.pairwise_cons.mp honce
    obtain ⟨hm, hms⟩ := List.forall_mem_cons.mp hadmits
    obtain ⟨hmnew, hmsnew⟩ := List.forall_mem_cons.mp hnew
    have hstill : ∀ m' ∈ ms, m'.1 ∈ fs.map Field.name → m'.1 ∉ m.1 :: names := by
      intro m' hm' hk
      have hne : m'.1 ≠ m.1 := fun he => hfirst m' hm' he.symm (he ▸ hk)
      exact List.not_mem_cons_of_ne_of_not_mem hne (hmsnew m' hm' hk)
    rw [List.map_cons, List.reverse_cons, List.append_assoc]
    exact .cons (member_takes hn hm hmnew) (ih hms honce (m.1 :: names) hstill)

end Slots

namespace Codec
variable {α : Type} {fs : List Field} {values : Values fs} {depth : Nat}

/-- A structure is read from an object that spells its values. -/
theorem record_reads {name : String} {of : Values fs → α} {fields : α → Values fs} (hn : (fs.map Field.name).Nodup)
    {ms : List (String × Shape)} (h : values.Given depth ms) :
    (record name fs of fields).Reads (depth + 1) (Object ms) (of values) := by
  intro before cs rest hb hcs hr
  have htakes := Slots.member_takesAll hn h.admits h.once [] (by simp)
  rw [Slots.filled_nil, List.append_nil] at htakes
  obtain ⟨inside, rfl, hread⟩ := membersUpTo_object hcs htakes
  have hcomplete := Slots.complete_filled (h.defaulted.mono (List.subset_reverse.mpr (List.Subset.refl _)))
  refine (afterBlank_cons hb rfl _).trans ?_
  exact bind_ok.mpr ⟨_, hread rest, bind_ok.mpr ⟨_, hcomplete, rfl⟩⟩

/-- Neither the order of the members nor further keys matter. -/
theorem record_reads_rendered {name : String} {of : Values fs → α} {fields : α → Values fs}
    (hn : (fs.map Field.name).Nodup) {ms : List (String × Shape)} (h : values.Spelled depth fs ms) :
    (record name fs of fields).Reads (depth + 1) (Rendered (fs.map Field.name) ms) (of values) := by
  rintro before cs rest hb ⟨further, all, hfurther, hp, hcs⟩ hr
  exact record_reads hn (((h.given hn).further hfurther).perm hp.symm) before cs rest hb hcs hr

end Codec

end EventIntake.Json
