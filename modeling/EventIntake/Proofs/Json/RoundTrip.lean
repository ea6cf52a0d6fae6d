import EventIntake.Proofs.Json.Plain
import EventIntake.Proofs.Json.Rendering

/-! What a codec writes, it reads back. -/
namespace EventIntake.Json
open Grammar

variable {α : Type}

/-- The text of `a` is read as `a`. -/
def Codec.Rereads (c : Codec α) (depth : Nat) (a : α) : Prop := c.Reads depth (· = c.write a) a

/-- A field that is written, and of which the text is read as a value. -/
structure Field.ReadsAs (f : Field) (depth : Nat) (written a : f.Carrier) : Prop where
  kept : f.omits written = false
  read : f.codec.Reads depth (· = f.codec.write written) a

def Values.ReadAs (depth : Nat) : (fs : List Field) → Values fs → Values fs → Prop
  | [], _, _ => True
  | f :: fs, (written, others), (a, values) => f.ReadsAs depth written a ∧ Values.ReadAs depth fs others values

theorem Values.members_cons {f : Field} {fs : List Field} {a : f.Carrier} (h : f.omits a = false) (values : Values fs) :
    Values.members (f :: fs) (a, values) = (f.name, f.codec.write a) :: Values.members fs values :=
  if_neg (by simp [h])

namespace Codec

theorem decode_encode {c : Codec α} {written a : α} (h : c.Reads maxDepth (· = c.write written) a) :
    c.decode (c.encode written) = .ok a :=
  decode_reads h (padded_of (by rw [encode, String.toList_ofList]))

theorem text_rereads (s : String) (depth : Nat) : text.Rereads depth s := by
  rintro before cs rest hb rfl hr
  exact text_reads s depth before _ rest hb (textOf_writeText s) hr

theorem int64_rereads (n : Int64) (depth : Nat) : int64.Rereads depth n := int64_reads n depth

theorem uint64_rereads (n : UInt64) (depth : Nat) : uint64.Rereads depth n := uint64_reads n depth

/-- No value is written as null, which no other value starts like. -/
theorem optional_rereads {c : Codec α} {depth : Nat} {o : Option α} (h : ∀ a, o = some a → c.Rereads depth a)
    (hstart : ∀ a, ∃ first rest, c.write a = first :: rest ∧ isBlank first = false ∧ first ≠ 'n') :
    (optional c).Rereads depth o := by
  rintro before cs rest hb rfl hr
  cases o with
  | none => exact (afterBlank_cons hb rfl _).trans rfl
  | some a =>
    have hread := h a rfl [] _ rest blanks_nil rfl hr
    obtain ⟨first, others, hwrite, hblank, hn⟩ := hstart a
    have htext : (optional c).write (some a) = first :: others := hwrite
    rw [hwrite, List.nil_append] at hread
    rw [htext]
    refine (afterBlank_cons hb hblank _).trans ?_
    split
    · rename_i hfirst
      cases hfirst
      exact absurd rfl hn
    · exact map_ok.mpr ⟨_, hread, rfl⟩

theorem choice_rereads {cases : List (String × α)} {name : α → String} {a : α}
    (h : cases.lookup (name a) = some a) (depth : Nat) : (choice cases name).Rereads depth a := by
  rintro before cs rest hb rfl _
  have htext : Json.text ((name a).toList.flatMap escape ++ '"' :: rest) = .ok (name a, rest) :=
    (spells_written (name a).toList).text rest
  have hwrite : (choice cases name).write a ++ rest = '"' :: ((name a).toList.flatMap escape ++ '"' :: rest) := by
    simp [choice, writeText]
  have hcase : caseOf cases (name a) = .ok a := by rw [caseOf, h]
  rw [hwrite]
  refine (afterBlank_cons hb rfl _).trans ?_
  exact bind_ok.mpr ⟨_, htext, bind_ok.mpr ⟨_, hcase, rfl⟩⟩

theorem spelled_members {depth : Nat} {fs : List Field} {written values : Values fs}
    (h : Values.ReadAs depth fs written values) : values.Spelled depth fs (verbatim (Values.members fs written)) := by
  induction fs with
  | nil => exact .nil
  | cons f fs ih =>
    obtain ⟨w, written⟩ := written
    obtain ⟨a, values⟩ := values
    obtain ⟨hfield, hvalues⟩ := h
    rw [Values.members_cons hfield.kept]
    exact .member hfield.read (ih hvalues)

/-- A structure is read with what its fields are read as. -/
theorem record_read_as {name : String} {fs : List Field} {of : Values fs → α} {fields : α → Values fs} {written a : α}
    {depth : Nat} (hn : (fs.map Field.name).Nodup) (hof : of (fields a) = a)
    (h : Values.ReadAs depth fs (fields written) (fields a)) :
    (record name fs of fields).Reads (depth + 1) (· = (record name fs of fields).write written) a := by
  rintro before cs rest hb rfl hr
  have hread : (record name fs of fields).Reads (depth + 1) (Object (verbatim (Values.members fs (fields written))))
      (of (fields a)) :=
    record_reads hn ((spelled_members h).given hn)
  rw [hof] at hread
  exact hread before _ rest hb (object_verbatim _) hr

theorem value_reads {v w : Value} {depth : Nat}
    (h : ∀ before rest, Blanks before → Apart rest →
      Value.read (.sorted Value.embedded) depth (before ++ (v.write ++ rest)) = .ok (w, rest)) :
    value.Reads depth (· = v.write) w := by
  rintro before cs rest hb rfl hr
  exact h before rest hb hr

end Codec

/-! ### Refusal -/

/-- No text of the shape is read. -/
def Codec.Refuses (c : Codec α) (depth : Nat) (shape : Shape) : Prop :=
  ∀ before cs rest, Blanks before → shape cs → Apart rest →
    ∃ fault, c.read depth (before ++ (cs ++ rest)) = .error fault

theorem Codec.decode_refuses {c : Codec α} {shape : Shape} (h : c.Refuses maxDepth shape) {s : String}
    (hs : Padded shape s.toList) : ∃ fault, c.decode s = .error fault := by
  obtain ⟨before, inside, after, hbefore, hinside, hafter, he⟩ := hs
  obtain ⟨fault, hfault⟩ := h before inside after hbefore hinside (List.append_nil after ▸ hafter.apart apart_nil)
  exact ⟨fault, by simp only [decode, finish, he, hfault, bind, Except.bind]⟩

theorem Codec.decode_encode_refused {c : Codec α} {a : α} (h : c.Refuses maxDepth (· = c.write a)) :
    ∃ fault, c.decode (c.encode a) = .error fault :=
  decode_refuses h (padded_of (by rw [encode, String.toList_ofList]))

/-- The member of a field whose codec refuses it. -/
def Field.Refused (depth : Nat) (m : String × Shape) : List Field → Prop
  | [] => False
  | f :: fs => if m.1 = f.name then f.codec.Refuses depth m.2 else Field.Refused depth m fs

namespace Slots
variable {depth : Nat} {fs : List Field}

theorem lookup_refused {m : String × Shape} (h : Field.Refused depth m fs) (slots : Slots fs) :
    match lookup fs slots m.1 with
    | .unknown => False
    | .taken => True
    | .free fill => ∀ before cs rest, Blanks before → m.2 cs → Apart rest →
      ∃ fault, fill depth (before ++ (cs ++ rest)) = .error fault := by
  induction fs with
  | nil => exact h
  | cons f fs ih =>
    obtain ⟨slot, slots⟩ := slots
    rw [Field.Refused] at h
    rw [lookup]
    by_cases hname : m.1 = f.name
    · rw [if_pos hname] at h ⊢
      cases slot with
      | some a => trivial
      | none =>
        intro before cs rest hb hcs hr
        obtain ⟨fault, hfault⟩ := h before cs rest hb hcs hr
        exact ⟨fault, by simp only [hfault, bind, Except.bind]⟩
    · rw [if_neg hname] at h ⊢
      have hrest := ih h slots
      cases hl : lookup fs slots m.1 with
      | unknown =>
        rw [hl] at hrest
        exact hrest
      | taken => trivial
      | free fill =>
        rw [hl] at hrest
        intro before cs rest hb hcs hr
        obtain ⟨fault, hfault⟩ := hrest before cs rest hb hcs hr
        exact ⟨fault, by simp only [hfault, bind, Except.bind]⟩

theorem member_rejects {m : String × Shape} (h : Field.Refused depth m fs) (slots : Slots fs) :
    Rejects (member fs depth) m slots := by
  intro gap before cs rest hgap hb hcs hr
  have hlookup := lookup_refused h slots
  rw [member]
  cases hl : lookup fs slots m.1 with
  | unknown =>
    rw [hl] at hlookup
    exact hlookup.elim
  | taken => exact ⟨_, rfl⟩
  | free fill =>
    rw [hl] at hlookup
    obtain ⟨fault, hfault⟩ := hlookup before cs rest hb hcs hr
    exact ⟨fault, by simp only [colon_blanks hgap, hfault, bind, Except.bind]⟩

theorem member_rejectsOne {values : Values fs} {ms : List (String × Shape)} (hn : (fs.map Field.name).Nodup)
    (h : ∀ m ∈ ms, values.Admits depth m ∨ Field.Refused depth m fs) (hone : ∃ m ∈ ms, Field.Refused depth m fs)
    (honce : (ms.map Prod.fst).Nodup) {names : List String} (hnew : ∀ m ∈ ms, m.1 ∉ names) :
    RejectsOne (member fs depth) ms (filled names fs values) := by
  induction ms generalizing names with
  | nil => simp at hone
  | cons m ms ih =>
    obtain ⟨hm, hms⟩ := List.forall_mem_cons.mp h
    obtain ⟨hmnew, hmsnew⟩ := List.forall_mem_cons.mp hnew
    obtain ⟨hfirst, honce⟩ := List.nodup_cons.mp honce
    rcases hm with hm | hm
    · rcases (List.exists_mem_cons_iff ..).mp hone with hrefused | hlater
      · exact .here (member_rejects hrefused _)
      · refine .later (member_takes hn hm fun _ => hmnew) (ih hms hlater honce fun m' hm' => ?_)
        have hne : m'.1 ≠ m.1 := fun he => hfirst (he ▸ List.mem_map_of_mem hm')
        exact List.not_mem_cons_of_ne_of_not_mem hne (hmsnew m' hm')
    · exact .here (member_rejects hm _)

end Slots

namespace Values
variable {depth : Nat} {fs : List Field} {values : Values fs}

/-- Each value is read back or refused. -/
def Settled (depth : Nat) : (fs : List Field) → Values fs → Prop
  | [], _ => True
  | f :: fs, (a, values) =>
    (f.omits a = false ∧ (f.codec.Rereads depth a ∨ f.codec.Refuses depth (· = f.codec.write a))) ∧
      Settled depth fs values

def RefusesOne (depth : Nat) : (fs : List Field) → Values fs → Prop
  | [], _ => False
  | f :: fs, (a, values) => f.codec.Refuses depth (· = f.codec.write a) ∨ RefusesOne depth fs values

theorem Settled.names (h : Settled depth fs values) :
    (verbatim (members fs values)).map Prod.fst = fs.map Field.name := by
  induction fs with
  | nil => rfl
  | cons f fs ih =>
    obtain ⟨a, values⟩ := values
    rw [members_cons h.1.1]
    exact congrArg (f.name :: ·) (ih h.2)

theorem Settled.admits_or_refused (h : Settled depth fs values) (hn : (fs.map Field.name).Nodup)
    {m : String × Shape} (hm : m ∈ verbatim (members fs values)) :
    values.Admits depth m ∨ Field.Refused depth m fs := by
  induction fs with
  | nil => cases hm
  | cons f fs ih =>
    obtain ⟨a, values⟩ := values
    obtain ⟨hf, hfs⟩ := List.nodup_cons.mp hn
    obtain ⟨⟨homits, hsettled⟩, hvalues⟩ := h
    rw [members_cons homits] at hm
    rw [Admits, Field.Refused]
    rcases List.mem_cons.mp hm with rfl | hm
    · rw [if_pos rfl, if_pos rfl]
      exact hsettled
    · have hne : m.1 ≠ f.name := fun he => hf (he ▸ hvalues.names ▸ List.mem_map_of_mem hm)
      rw [if_neg hne, if_neg hne]
      exact ih hvalues hfs hm

theorem Settled.exists_refused (h : Settled depth fs values) (hn : (fs.map Field.name).Nodup)
    (hone : RefusesOne depth fs values) : ∃ m ∈ verbatim (members fs values), Field.Refused depth m fs := by
  induction fs with
  | nil => cases hone
  | cons f fs ih =>
    obtain ⟨a, values⟩ := values
    obtain ⟨hf, hfs⟩ := List.nodup_cons.mp hn
    obtain ⟨⟨homits, _⟩, hvalues⟩ := h
    rw [members_cons homits]
    rcases hone with hrefuses | hone
    · refine ⟨_, .head _, ?_⟩
      rw [Field.Refused, if_pos rfl]
      exact hrefuses
    · obtain ⟨m, hm, hrefused⟩ := ih hvalues hfs hone
      have hne : m.1 ≠ f.name := fun he => hf (he ▸ hvalues.names ▸ List.mem_map_of_mem hm)
      refine ⟨m, .tail _ hm, ?_⟩
      rw [Field.Refused, if_neg hne]
      exact hrefused

end Values

/-- A structure with a value that is refused is refused. -/
theorem Codec.record_refuses {name : String} {fs : List Field} {of : Values fs → α} {fields : α → Values fs} {a : α}
    {depth : Nat} (hn : (fs.map Field.name).Nodup) (h : Values.Settled depth fs (fields a))
    (hone : Values.RefusesOne depth fs (fields a)) :
    (record name fs of fields).Refuses (depth + 1) (· = (record name fs of fields).write a) := by
  rintro before cs rest hb rfl hr
  have hrejects := Slots.member_rejectsOne hn (fun _ hm => h.admits_or_refused hn hm) (h.exists_refused hn hone)
    (h.names ▸ hn) (fun _ _ => List.not_mem_nil)
  rw [Slots.filled_nil] at hrejects
  obtain ⟨inside, hwrite, hrejected⟩ := membersUpTo_object_rejected (object_verbatim _) hrejects
  obtain ⟨fault, hfault⟩ := hrejected ((inside ++ rest).length + 1) rest
  have hstart : (record name fs of fields).write a = '{' :: inside := hwrite
  refine ⟨fault, ?_⟩
  rw [hstart]
  exact (afterBlank_cons hb rfl _).trans (congrArg (· >>= _) hfault)

end EventIntake.Json
