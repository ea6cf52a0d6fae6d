import EventIntake.Proofs.Json.Reading

/-! Compact text of values is read back as the values. -/
namespace EventIntake.Json.Value
open Decimal Grammar

/-- Members that are kept the way they are written. -/
def Form.Keeps (form : Form) (ms : List (String × Value)) : Prop :=
  match form with
  | .asWritten => True
  | .sorted _ => Sorted.Ascending ms ∧ ms.head?.map Prod.fst ≠ some embeddedKey

/-- Values that can be read back. -/
inductive Readable (form : Form) : Nat → Value → Prop
  | null {depth : Nat} : Readable form depth .null
  | bool {depth : Nat} (b : Bool) : Readable form depth (.bool b)
  | number {depth : Nat} {n : Int} :
      Int64.minValue.toInt ≤ n → n < UInt64.size → Readable form depth (.number (.whole n))
  | text {depth : Nat} (s : String) : Readable form depth (.text s)
  | list {depth : Nat} {vs : List Value} : (∀ v ∈ vs, Readable form depth v) → Readable form (depth + 1) (.list vs)
  | object {depth : Nat} {ms : List (String × Value)} :
      (∀ m ∈ ms, Readable form depth m.2) → form.Keeps ms → Readable form (depth + 1) (.object ms)

variable {form : Form} {depth : Nat}

def isReal : Value → Bool
  | .number (.real _) => true
  | _ => false

theorem write_opens {v : Value} (h : v.isReal = false) : Opens v.write := by
  cases v with
  | null => exact ⟨'n', _, rfl, by decide, by decide⟩
  | bool b => cases b <;> exact ⟨_, _, rfl, by decide, by decide⟩
  | number x =>
    cases x with
    | whole n => exact Valid.head (.number (numeral_toString n))
    | real x => cases h
  | text s => exact ⟨'"', _, rfl, by decide, by decide⟩
  | list vs => exact ⟨'[', _, rfl, by decide, by decide⟩
  | object ms => exact ⟨'{', _, rfl, by decide, by decide⟩

theorem Readable.opens {v : Value} (h : Readable form depth v) : Opens v.write := by
  cases h <;> exact write_opens rfl

/-- The text of a value is read as the value. -/
def Rereads (form : Form) (depth : Nat) (v : Value) : Prop :=
  ∀ before rest, Blanks before → Apart rest → read form depth (before ++ (v.write ++ rest)) = .ok (v, rest)

theorem read_blanks {blanks : List Char} (hb : Blanks blanks) (cs : List Char) :
    read form depth (blanks ++ cs) = read form depth cs := by
  rw [read, read, skipBlank_append hb]

theorem rereads_of {v : Value} (h : ∀ rest, Apart rest → read form depth (v.write ++ rest) = .ok (v, rest)) :
    Rereads form depth v := by
  intro before rest hb hr
  rw [read_blanks hb]
  exact h rest hr

/-- Reads an element and puts it before those read so far. -/
def readItem (form : Form) (depth : Nat) (done : List Value) : Reader (List Value) := fun cs => do
  let (v, cs) ← read form depth cs
  .ok (v :: done, cs)

def readMember (form : Form) (depth : Nat) (kept : List (String × Value)) (name : String) :
    Reader (List (String × Value)) := fun cs => do
  let cs ← colon cs
  let (v, cs) ← read form depth cs
  .ok (form.add name v kept, cs)

theorem read_number {c : Char} (hc : c = '-' ∨ isDigit c = true) (cs : List Char) :
    read form depth (c :: cs) = (fun n => (.number n.1, n.2)) <$> Json.number (c :: cs) := by
  have hblank : isBlank c = false := by
    rcases hc with rfl | hc
    · rfl
    · exact isBlank_digit hc
  have hne : c ≠ 'n' ∧ c ≠ 't' ∧ c ≠ 'f' ∧ c ≠ '"' := by
    refine ⟨?_, ?_, ?_, ?_⟩ <;> rintro rfl <;> exact absurd hc (by decide)
  obtain ⟨hn, ht, hf, hq⟩ := hne
  rw [read, skipBlank_cons hblank]
  simp only [if_neg hn, if_neg ht, if_neg hf, if_neg hq, if_pos hc]

theorem read_text (cs : List Char) :
    read form depth ('"' :: cs) = (fun s => (.text s.1, s.2)) <$> Json.text cs := by
  rw [read]
  rfl

theorem read_list (cs : List Char) :
    read form (depth + 1) ('[' :: cs) =
      (do let (done, rest) ← items (readItem form depth) [] cs
          .ok (.list done.reverse, rest)) := by
  rw [read]
  rfl

theorem read_empty (cs : List Char) : read form (depth + 1) ('{' :: '}' :: cs) = .ok (.object [], cs) := by
  rw [read]
  rfl

theorem read_object {key : String} {cs rest : List Char} (hkey : nextKey true cs = .ok (some key, rest)) :
    read form (depth + 1) ('{' :: cs) =
      (match form.embedded? key with
      | some embedded => do
        let rest ← colon rest
        let (spelled, rest) ← embeddedText rest
        let v ← embedded spelled
        .ok (v, ← endObject rest)
      | none => do
        let (kept, rest) ← readMember form depth [] key rest
        let (kept, rest) ← membersUpTo (readMember form depth) (rest.length + 1) false kept rest
        .ok (form.object kept, ← endObject rest)) := by
  rw [read]
  change nextKey true cs >>= _ = _
  rw [hkey]
  rfl

theorem readItem_consumes {v : Value} (hopens : Opens v.write) (h : Rereads form depth v) (done : List Value) :
    Consumes (readItem form depth) v.write done (v :: done) := by
  refine ⟨hopens, fun rest hr => ?_⟩
  have hread := h [] rest blanks_nil hr
  rw [List.nil_append] at hread
  simp only [readItem, hread, bind, Except.bind]

theorem readItem_consumesAll {vs : List Value} (h : ∀ v ∈ vs, Opens v.write ∧ Rereads form depth v)
    (done : List Value) : ConsumesAll (readItem form depth) (writeList vs) done (vs.reverse ++ done) := by
  induction vs generalizing done with
  | nil => exact .nil
  | cons v vs ih =>
    obtain ⟨⟨hopens, hv⟩, hvs⟩ := List.forall_mem_cons.mp h
    rw [List.reverse_cons, List.append_assoc]
    exact .cons (readItem_consumes hopens hv done) (ih hvs (v :: done))

theorem readMember_takes {m : String × Value} (h : Rereads form depth m.2) (kept : List (String × Value)) :
    Takes (readMember form depth) (m.1, (· = m.2.write)) kept (form.add m.1 m.2 kept) := by
  rintro gap before value rest hgap hbefore rfl hr
  simp only [readMember, colon_blanks hgap, h before rest hbefore hr, bind, Except.bind]

/-- Adds members in their order. -/
def Form.addAll (form : Form) (ms kept : List (String × Value)) : List (String × Value) :=
  ms.foldl (fun kept m => form.add m.1 m.2 kept) kept

theorem readMember_takesAll {ms : List (String × Value)} (h : ∀ m ∈ ms, Rereads form depth m.2)
    (kept : List (String × Value)) :
    TakesAll (readMember form depth) (verbatim (writeObject ms)) kept (form.addAll ms kept) := by
  induction ms generalizing kept with
  | nil => exact .nil
  | cons m ms ih =>
    obtain ⟨hm, hms⟩ := List.forall_mem_cons.mp h
    exact .cons (readMember_takes hm kept) (ih hms _)

theorem Form.Keeps.embedded? {ms : List (String × Value)} (h : form.Keeps ms) :
    ∀ m ∈ ms.head?, form.embedded? m.1 = none := by
  intro m hm
  cases form with
  | asWritten => rfl
  | sorted embedded =>
    rw [Option.mem_def] at hm
    have hne : m.1 ≠ embeddedKey := fun he => h.2 (by rw [hm, Option.map_some, he])
    exact if_neg hne

/-- The text of an object with members, cut behind the first of them. -/
theorem write_object_split (m : String × Value) (ms : List (String × Value)) :
    ∃ first tail, Member (m.1, (· = m.2.write)) first ∧ Tail (verbatim (writeObject ms)) tail ∧
      (Value.object (m :: ms)).write = '{' :: (first ++ (tail ++ ['}'])) := by
  have hmembers := object_verbatim (writeObject (m :: ms))
  rw [write]
  generalize writeMembers (writeObject (m :: ms)) = text at hmembers
  obtain _ | hmembers := hmembers
  obtain ⟨first, tail, hfirst, htail, rfl⟩ := hmembers.split
  exact ⟨first, tail, hfirst, htail, by rw [List.append_assoc]⟩

/-- Members that are written as they are kept come back as they were. -/
theorem Form.object_addAll {ms : List (String × Value)} (h : form.Keeps ms) :
    form.object (form.addAll ms []) = .object ms := by
  cases form with
  | asWritten =>
    have hadd : ∀ (ms kept : List (String × Value)), Form.asWritten.addAll ms kept = ms.reverse ++ kept := by
      intro ms
      induction ms with
      | nil => exact fun kept => rfl
      | cons m ms ih =>
        intro kept
        rw [List.reverse_cons, List.append_assoc]
        exact ih (m :: kept)
    rw [hadd, List.append_nil, Form.object, List.reverse_reverse]
  | sorted embedded => exact congrArg Value.object (Sorted.Ascending.foldl_insert h.1)

/-- Members in any order are read as the reader keeps them, unless the first calls for an embedded text. -/
theorem read_members {ms : List (String × Value)} (hms : ∀ m ∈ ms, Rereads form depth m.2)
    (hfirst : ∀ m ∈ ms.head?, form.embedded? m.1 = none) (rest : List Char) :
    read form (depth + 1) ((Value.object ms).write ++ rest) =
      .ok (form.object (form.addAll ms []), rest) := by
  cases ms with
  | nil =>
    have hobject : form.object [] = .object [] := by cases form <;> rfl
    rw [write]
    exact (read_empty rest).trans (by rw [Form.addAll, List.foldl_nil, hobject])
  | cons m ms =>
    obtain ⟨first, tail, hmember, htail, hwrite⟩ := write_object_split m ms
    obtain ⟨hm, hms⟩ := List.forall_mem_cons.mp hms
    obtain ⟨blanks, hblanks, hread⟩ := hmember.read (readMember_takes hm [])
    obtain ⟨afterKey, hkey, hvalue⟩ := hread (tail ++ '}' :: rest) (htail.apart rest)
    have hfuel : (verbatim (writeObject ms)).length < (blanks ++ (tail ++ '}' :: rest)).length + 1 := by
      have htailfuel := htail.length_le
      rw [List.length_append, List.length_append]
      exact Nat.lt_succ_of_le (Nat.le_trans htailfuel (by omega))
    have htakes := readMember_takesAll hms (form.add m.1 m.2 [])
    have hothers := (membersUpTo_blanks hblanks _ false _ _).trans (membersUpTo_tail htail htakes hfuel rest)
    simp only [hwrite, List.cons_append, List.append_assoc, List.nil_append]
    rw [read_object hkey, hfirst m rfl]
    simp only [hvalue, hothers, endObject_brace, bind, Except.bind]
    rfl

theorem Readable.rereads {v : Value} (h : Readable form depth v) : Rereads form depth v := by
  refine rereads_of fun rest hr => ?_
  induction h generalizing rest with
  | null =>
    rw [read]
    rfl
  | bool b =>
    rw [read]
    cases b <;> rfl
  | @number depth n hlow hhigh =>
    have hread := number_toString hlow hhigh hr
    obtain ⟨c, digits, hs, hc⟩ := (numeral_toString n).head
    have hwrite : (Value.number (.whole n)).write = c :: digits := hs
    rw [hs] at hread
    rw [hwrite, List.cons_append, read_number hc]
    rw [List.cons_append] at hread
    rw [hread]
    rfl
  | text s =>
    have hread := (spells_written s.toList).text rest
    rw [write, writeText, List.cons_append, List.cons_append, List.append_assoc, read_text]
    exact (congrArg _ hread).trans rfl
  | @list depth vs hvs ih =>
    have hrereads : ∀ v ∈ vs, Opens v.write ∧ Rereads form depth v := fun v hv =>
      ⟨(hvs v hv).opens, rereads_of (ih v hv)⟩
    have hitems := items_written (readItem_consumesAll hrereads []) rest
    rw [write, writeItems, List.cons_append, List.cons_append, List.append_assoc, read_list]
    refine bind_ok.mpr ⟨_, hitems, ?_⟩
    simp
  | @object depth ms hms hkeeps ih =>
    have hrereads : ∀ m ∈ ms, Rereads form depth m.2 := fun m hm => rereads_of (ih m hm)
    rw [read_members hrereads hkeeps.embedded? rest, Form.object_addAll hkeeps]

end EventIntake.Json.Value
