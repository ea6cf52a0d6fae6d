import EventIntake.Proofs.Json.Kept

/-! Which values come back when their text is read again, once they were read. All others are refused. -/
namespace EventIntake.Json.Value
open Decimal Grammar

variable {embedded : String → Except Fault Value}

mutual
/-- Whether a value and all those within it pass a check. -/
def all (check : Value → Bool) : Value → Bool
  | .null => check .null
  | .bool b => check (.bool b)
  | .number x => check (.number x)
  | .text s => check (.text s)
  | .list vs => check (.list vs) && allItems check vs
  | .object ms => check (.object ms) && allMembers check ms

def allItems (check : Value → Bool) : List Value → Bool
  | [] => true
  | v :: vs => v.all check && allItems check vs

def allMembers (check : Value → Bool) : List (String × Value) → Bool
  | [] => true
  | (_, v) :: ms => v.all check && allMembers check ms
end

mutual
/-- How deeply lists and objects nest. -/
def depth : Value → Nat
  | .null => 0
  | .bool _ => 0
  | .number _ => 0
  | .text _ => 0
  | .list vs => depthItems vs + 1
  | .object ms => depthMembers ms + 1

def depthItems : List Value → Nat
  | [] => 0
  | v :: vs => max v.depth (depthItems vs)

def depthMembers : List (String × Value) → Nat
  | [] => 0
  | (_, v) :: ms => max v.depth (depthMembers ms)
end

/-- Whether the first key of an object calls for an embedded text. -/
def isReserved : Value → Bool
  | .object ((key, _) :: _) => key == embeddedKey
  | _ => false

/-- No number within the value is real. -/
def floatless (v : Value) : Bool := v.all fun part => !part.isReal

/-- No object within the value starts with the embedded key. -/
def unreserved (v : Value) : Bool := v.all fun part => !part.isReserved

theorem allItems_iff {check : Value → Bool} {vs : List Value} :
    allItems check vs = true ↔ ∀ v ∈ vs, v.all check = true := by
  induction vs with
  | nil => simp [allItems]
  | cons v vs ih => simp [allItems, ih]

theorem allMembers_iff {check : Value → Bool} {ms : List (String × Value)} :
    allMembers check ms = true ↔ ∀ m ∈ ms, m.2.all check = true := by
  induction ms with
  | nil => simp [allMembers]
  | cons m ms ih => simp [allMembers, ih]

theorem depthItems_le_iff {vs : List Value} {bound : Nat} : depthItems vs ≤ bound ↔ ∀ v ∈ vs, v.depth ≤ bound := by
  induction vs with
  | nil => simp [depthItems]
  | cons v vs ih => rw [depthItems, Nat.max_le, ih, List.forall_mem_cons]

theorem depthMembers_le_iff {ms : List (String × Value)} {bound : Nat} :
    depthMembers ms ≤ bound ↔ ∀ m ∈ ms, m.2.depth ≤ bound := by
  induction ms with
  | nil => simp [depthMembers]
  | cons m ms ih => rw [depthMembers, Nat.max_le, ih, List.forall_mem_cons]

/-- What was read can be read again, but for real numbers, reserved keys and brackets that nest too deeply. -/
theorem Kept.readable {v : Value} (h : Kept v) {bound : Nat} (hfloat : v.floatless = true)
    (hreserved : v.unreserved = true) (hdepth : v.depth ≤ bound) : Readable (.sorted embedded) bound v := by
  induction h generalizing bound with
  | null => exact .null
  | bool b => exact .bool b
  | @number x hx =>
    cases x with
    | whole n => exact .number (hx n rfl).1 (hx n rfl).2
    | real x => simp [floatless, all, isReal] at hfloat
  | text s => exact .text s
  | @list vs _ ih =>
    obtain ⟨bound, rfl⟩ := Nat.exists_eq_add_one_of_ne_zero (Nat.ne_zero_of_lt (Nat.lt_of_succ_le hdepth))
    simp only [floatless, unreserved, all, Bool.and_eq_true, allItems_iff] at hfloat hreserved
    have hparts := depthItems_le_iff.mp (Nat.le_of_succ_le_succ hdepth)
    exact .list fun v hv => ih v hv (hfloat.2 v hv) (hreserved.2 v hv) (hparts v hv)
  | @object ms hsorted _ _ ih =>
    obtain ⟨bound, rfl⟩ := Nat.exists_eq_add_one_of_ne_zero (Nat.ne_zero_of_lt (Nat.lt_of_succ_le hdepth))
    simp only [floatless, unreserved, all, Bool.and_eq_true, allMembers_iff] at hfloat hreserved
    have hparts := depthMembers_le_iff.mp (Nat.le_of_succ_le_succ hdepth)
    refine .object (fun m hm => ih m hm (hfloat.2 m hm) (hreserved.2 m hm) (hparts m hm)) ⟨hsorted, ?_⟩
    cases ms with
    | nil => simp
    | cons m ms => simpa [isReserved] using hreserved.1

/-! ### Refusal -/

/-- The text of a value is refused. -/
def Refuses (form : Form) (bound : Nat) (v : Value) : Prop :=
  ∀ before rest, Blanks before → Apart rest → ∃ fault, read form bound (before ++ (v.write ++ rest)) = .error fault

variable {form : Form} {bound : Nat}

theorem refuses_of {v : Value} (h : ∀ rest, Apart rest → ∃ fault, read form bound (v.write ++ rest) = .error fault) :
    v.Refuses form bound := by
  intro before rest hb hr
  rw [read_blanks hb]
  exact h rest hr

theorem list_refuses_zero (vs : List Value) : (Value.list vs).Refuses form 0 := by
  refine refuses_of fun rest _ => ⟨.tooDeep, ?_⟩
  rw [read]
  rfl

theorem object_refuses_zero (ms : List (String × Value)) : (Value.object ms).Refuses form 0 := by
  refine refuses_of fun rest _ => ⟨.tooDeep, ?_⟩
  rw [read]
  rfl

/-- A value that is read back or refused. -/
def Settled (form : Form) (bound : Nat) (v : Value) : Prop :=
  Opens v.write ∧ (Rereads form bound v ∨ v.Refuses form bound)

/-- The first element that is refused stops the reader. -/
theorem readItem_refusesOne {vs : List Value} (h : ∀ v ∈ vs, v.Settled form bound)
    (hone : ∃ v ∈ vs, v.Refuses form bound) (done : List Value) :
    RefusesOne (readItem form bound) (writeList vs) done := by
  induction vs generalizing done with
  | nil => simp at hone
  | cons v vs ih =>
    obtain ⟨⟨hopens, hv⟩, hvs⟩ := List.forall_mem_cons.mp h
    have hhere (hv : v.Refuses form bound) : RefusesOne (readItem form bound) (writeList (v :: vs)) done := by
      refine .here hopens fun rest hr => ?_
      obtain ⟨fault, hfault⟩ := hv [] rest blanks_nil hr
      rw [List.nil_append] at hfault
      exact ⟨fault, by simp only [readItem, hfault, bind, Except.bind]⟩
    rcases hv with hv | hv
    · rcases (List.exists_mem_cons_iff ..).mp hone with hfirst | hlater
      · exact hhere hfirst
      · exact .later (readItem_consumes hopens hv done) (ih hvs hlater (v :: done))
    · exact hhere hv

theorem list_refuses {vs : List Value} (h : ∀ v ∈ vs, v.Settled form bound) (hone : ∃ v ∈ vs, v.Refuses form bound) :
    (Value.list vs).Refuses form (bound + 1) := by
  refine refuses_of fun rest _ => ?_
  obtain ⟨fault, hfault⟩ := items_refused (readItem_refusesOne h hone []) rest
  refine ⟨fault, ?_⟩
  rw [write, writeItems, List.cons_append, List.cons_append, List.append_assoc, read_list]
  exact congrArg (· >>= _) hfault

theorem readMember_rejects {m : String × Value} (h : m.2.Refuses form bound) (kept : List (String × Value)) :
    Rejects (readMember form bound) (m.1, (· = m.2.write)) kept := by
  rintro gap before value rest hgap hbefore rfl hr
  obtain ⟨fault, hfault⟩ := h before rest hbefore hr
  exact ⟨fault, by simp only [readMember, colon_blanks hgap, hfault, bind, Except.bind]⟩

theorem readMember_rejectsOne {ms : List (String × Value)} (h : ∀ m ∈ ms, m.2.Settled form bound)
    (hone : ∃ m ∈ ms, m.2.Refuses form bound) (kept : List (String × Value)) :
    RejectsOne (readMember form bound) (verbatim (writeObject ms)) kept := by
  induction ms generalizing kept with
  | nil => simp at hone
  | cons m ms ih =>
    obtain ⟨⟨_, hm⟩, hms⟩ := List.forall_mem_cons.mp h
    rcases hm with hm | hm
    · rcases (List.exists_mem_cons_iff ..).mp hone with hfirst | hlater
      · exact .here (readMember_rejects hfirst kept)
      · exact .later (readMember_takes hm kept) (ih hms hlater _)
    · exact .here (readMember_rejects hm kept)

theorem embedded?_of_isReserved {m : String × Value} {ms : List (String × Value)}
    (h : (Value.object (m :: ms)).isReserved = false) : form.embedded? m.1 = none := by
  cases form with
  | asWritten => rfl
  | sorted embedded => exact if_neg (beq_eq_false_iff_ne.mp h)

theorem object_refuses {ms : List (String × Value)} (h : ∀ m ∈ ms, m.2.Settled form bound)
    (hone : ∃ m ∈ ms, m.2.Refuses form bound) (hunreserved : (Value.object ms).isReserved = false) :
    (Value.object ms).Refuses form (bound + 1) := by
  refine refuses_of fun rest _ => ?_
  cases ms with
  | nil => simp at hone
  | cons m ms =>
    obtain ⟨first, tail, hfirst, htail, hwrite⟩ := write_object_split m ms
    have hnone : form.embedded? m.1 = none := embedded?_of_isReserved hunreserved
    have happend : (Value.object (m :: ms)).write ++ rest = '{' :: (first ++ (tail ++ '}' :: rest)) := by
      simp [hwrite]
    rw [happend]
    by_cases hm : m.2.Refuses form bound
    · obtain ⟨afterKey, fault, hkey, hfault⟩ := hfirst.rejected (readMember_rejects hm []) (htail.apart rest)
      refine ⟨fault, ?_⟩
      rw [read_object hkey, hnone]
      exact congrArg (· >>= _) hfault
    · obtain ⟨⟨_, hsettled⟩, hms⟩ := List.forall_mem_cons.mp h
      have hread := hsettled.resolve_right hm
      have hlater := ((List.exists_mem_cons_iff ..).mp hone).resolve_left hm
      obtain ⟨blanks, hblanks, hmember⟩ := hfirst.read (readMember_takes hread [])
      obtain ⟨afterKey, hkey, hvalue⟩ := hmember (tail ++ '}' :: rest) (htail.apart rest)
      obtain ⟨fault, hfault⟩ := membersUpTo_tail_rejected htail (readMember_rejectsOne hms hlater (form.add m.1 m.2 []))
        ((blanks ++ (tail ++ '}' :: rest)).length + 1) rest
      refine ⟨fault, ?_⟩
      rw [read_object hkey, hnone]
      simp only [hvalue, membersUpTo_blanks hblanks, hfault, bind, Except.bind]

theorem embeddedText_text (s : String) {before : List Char} (hb : Blanks before) (rest : List Char) :
    embeddedText (before ++ (writeText s ++ rest)) = .ok (s, rest) := by
  have htext := (spells_written s.toList).text rest
  rw [embeddedText, skipBlank_append hb, writeText, List.cons_append, List.cons_append, List.append_assoc]
  exact htext

/-- Only a text is taken for an embedded one. -/
theorem embeddedText_error {v : Value} (hreal : v.isReal = false) (htext : ∀ s, v ≠ .text s) {before : List Char}
    (hb : Blanks before) (rest : List Char) : ∃ fault, embeddedText (before ++ (v.write ++ rest)) = .error fault := by
  have hstart : ∃ c cs, v.write = c :: cs ∧ isBlank c = false ∧ c ≠ '"' := by
    cases v with
    | null => exact ⟨'n', _, rfl, by decide, by decide⟩
    | bool b => cases b <;> exact ⟨_, _, rfl, by decide, by decide⟩
    | number x =>
      cases x with
      | whole n =>
        obtain ⟨c, cs, hwrite, hc⟩ := (numeral_toString n).head
        refine ⟨c, cs, hwrite, ?_, ?_⟩
        · rcases hc with rfl | hc
          · rfl
          · exact isBlank_digit hc
        · rintro rfl
          exact absurd hc (by decide)
      | real x => cases hreal
    | text s => exact absurd rfl (htext s)
    | list vs => exact ⟨'[', _, rfl, by decide, by decide⟩
    | object ms => exact ⟨'{', _, rfl, by decide, by decide⟩
  obtain ⟨c, cs, hwrite, hc, hquote⟩ := hstart
  rw [embeddedText, skipBlank_append hb, hwrite, List.cons_append, skipBlank_cons hc]
  split
  · cases ‹_ = []›
  · rename_i he
    cases he
    exact absurd rfl hquote
  · exact ⟨_, rfl⟩

theorem endObject_comma {blanks : List Char} (hb : Blanks blanks) (rest : List Char) :
    endObject (blanks ++ ',' :: rest) = .error .trailingComma := by
  rw [endObject, skipBlank_append hb]
  rfl

/-- The embedded key stands for its value: no member is read after it. -/
theorem read_reserved {m : String × Value} (hkey : m.1 = embeddedKey) (ms : List (String × Value)) :
    ∃ before after tail, Blanks before ∧ Blanks after ∧ Tail (verbatim (writeObject ms)) tail ∧ ∀ rest,
      read (.sorted embedded) (bound + 1) ((Value.object (m :: ms)).write ++ rest) =
        (do let (spelled, rest) ← embeddedText (before ++ (m.2.write ++ (after ++ (tail ++ '}' :: rest))))
            let v ← embedded spelled
            .ok (v, ← endObject rest)) := by
  obtain ⟨first, tail, hfirst, htail, hwrite⟩ := write_object_split m ms
  obtain ⟨gap, before, _, after, hgap, hbefore, rfl, hafter, hnext⟩ := hfirst.key
  refine ⟨before, after, tail, hbefore, hafter, htail, fun rest => ?_⟩
  have happend : (Value.object (m :: ms)).write ++ rest = '{' :: (first ++ (tail ++ '}' :: rest)) := by
    simp [hwrite]
  have hembedded : (Form.sorted embedded).embedded? m.1 = some embedded := if_pos hkey
  rw [happend, read_object (hnext _), hembedded]
  simp only [colon_blanks hgap, bind, Except.bind]

/-- An object that starts with the embedded key and has other keys is refused. -/
theorem reserved_refuses {m : String × Value} {ms : List (String × Value)} (hkey : m.1 = embeddedKey) (hms : ms ≠ [])
    (hreal : m.2.isReal = false) : (Value.object (m :: ms)).Refuses (.sorted embedded) (bound + 1) := by
  refine refuses_of fun rest _ => ?_
  obtain ⟨before, after, tail, hbefore, hafter, htail, hread⟩ := @read_reserved embedded bound m hkey ms
  have hcomma : ∃ others, tail = ',' :: others := by
    cases ms with
    | nil => exact absurd rfl hms
    | cons next ms =>
      cases htail with
      | more _ => exact ⟨_, rfl⟩
  obtain ⟨others, rfl⟩ := hcomma
  rw [hread]
  by_cases htext : ∃ s, m.2 = .text s
  · obtain ⟨s, hs⟩ := htext
    rw [hs, write, embeddedText_text s hbefore]
    cases hv : embedded s with
    | error fault => exact ⟨fault, by simp only [hv, bind, Except.bind]⟩
    | ok v =>
      have hend := endObject_comma hafter (others ++ '}' :: rest)
      exact ⟨.trailingComma, by simp only [hv, List.cons_append, hend, bind, Except.bind]⟩
  · obtain ⟨fault, hfault⟩ := embeddedText_error hreal (fun s hs => htext ⟨s, hs⟩) hbefore
      (after ++ (',' :: others ++ '}' :: rest))
    exact ⟨fault, by simp only [hfault, bind, Except.bind]⟩

/-- An object with the embedded key alone is read as the value that the text under it spells. -/
theorem reserved_read {s : String} {v : Value} (h : embedded s = .ok v) {before : List Char} (hb : Blanks before)
    (rest : List Char) :
    read (.sorted embedded) (bound + 1) (before ++ ((Value.object [(embeddedKey, .text s)]).write ++ rest)) =
      .ok (v, rest) := by
  obtain ⟨before', after, tail, hbefore, hafter, htail, hread⟩ :=
    @read_reserved embedded bound (embeddedKey, .text s) rfl []
  have htail : tail = [] := by
    rcases htail with _ | hmembers
    · rfl
    · cases hmembers
  have hend : endObject (after ++ '}' :: rest) = .ok rest := by
    rw [endObject, skipBlank_append hafter]
    rfl
  rw [read_blanks hb, hread, htail, write, embeddedText_text s hbefore]
  simp only [h, List.nil_append, hend, bind, Except.bind]

/-- An embedded text is a document of its own: what it spells may nest as deeply as a document can. -/
theorem Kept.embedded_write {v : Value} (h : Kept v) (hfloat : v.floatless = true) (hreserved : v.unreserved = true)
    (hdepth : v.depth ≤ maxDepth) : Value.embedded (String.ofList v.write) = .ok v := by
  have hread {embedded : String → Except Fault Value} : read (.sorted embedded) maxDepth v.write = .ok (v, []) := by
    have hrereads : Rereads (.sorted embedded) maxDepth v := (h.readable hfloat hreserved hdepth).rereads
    simpa using hrereads [] [] blanks_nil apart_nil
  rw [Value.embedded, documentUpTo, String.toList_ofList]
  simp only [finish, hread, bind, Except.bind]
  rfl

theorem isReal_of_floatless {v : Value} (h : v.floatless = true) : v.isReal = false := by
  cases v with
  | number x => simpa [floatless, all] using h
  | _ => rfl

theorem Kept.settled {v : Value} (h : Kept v) (hfloat : v.floatless = true)
    (hrefused : ¬(v.unreserved = true ∧ v.depth ≤ bound) → v.Refuses (.sorted embedded) bound) :
    v.Settled (.sorted embedded) bound := by
  refine ⟨write_opens (isReal_of_floatless hfloat), ?_⟩
  by_cases hplain : v.unreserved = true ∧ v.depth ≤ bound
  · exact .inl (h.readable hfloat hplain.1 hplain.2).rereads
  · exact .inr (hrefused hplain)

/-- What was read is refused if an object in it starts with the embedded key, or if brackets nest too deeply. -/
theorem Kept.refuses {v : Value} (h : Kept v) (hfloat : v.floatless = true)
    (hplain : ¬(v.unreserved = true ∧ v.depth ≤ bound)) : v.Refuses (.sorted embedded) bound := by
  induction h generalizing bound with
  | null | bool | text | number => simp [unreserved, all, isReserved, depth] at hplain
  | @list vs hvs ih =>
    cases bound with
    | zero => exact list_refuses_zero vs
    | succ bound =>
      simp only [floatless, all, Bool.and_eq_true, allItems_iff] at hfloat
      have hsettled : ∀ v ∈ vs, v.Settled (.sorted embedded) bound := fun v hv =>
        (hvs v hv).settled (hfloat.2 v hv) (ih v hv (hfloat.2 v hv))
      refine list_refuses hsettled (by_contra fun hnone => hplain ?_)
      have hall : ∀ v ∈ vs, v.unreserved = true ∧ v.depth ≤ bound := fun v hv =>
        by_contra fun hv' => hnone ⟨v, hv, ih v hv (hfloat.2 v hv) hv'⟩
      refine ⟨?_, Nat.succ_le_succ (depthItems_le_iff.mpr fun v hv => (hall v hv).2)⟩
      rw [unreserved, all, Bool.and_eq_true, allItems_iff]
      exact ⟨rfl, fun v hv => (hall v hv).1⟩
  | @object ms hsorted hvs hother ih =>
    cases bound with
    | zero => exact object_refuses_zero ms
    | succ bound =>
      simp only [floatless, all, Bool.and_eq_true, allMembers_iff] at hfloat
      cases hreserved : (Value.object ms).isReserved with
      | true =>
        cases ms with
        | nil => cases hreserved
        | cons m ms =>
          have hkey : m.1 = embeddedKey := beq_iff_eq.mp hreserved
          have hms : ms ≠ [] := by
            rintro rfl
            simp [hkey] at hother
          exact reserved_refuses hkey hms (isReal_of_floatless (hfloat.2 m (.head _)))
      | false =>
        have hsettled : ∀ m ∈ ms, m.2.Settled (.sorted embedded) bound := fun m hm =>
          (hvs m hm).settled (hfloat.2 m hm) (ih m hm (hfloat.2 m hm))
        refine object_refuses hsettled (by_contra fun hnone => hplain ?_) hreserved
        have hall : ∀ m ∈ ms, m.2.unreserved = true ∧ m.2.depth ≤ bound := fun m hm =>
          by_contra fun hm' => hnone ⟨m, hm, ih m hm (hfloat.2 m hm) hm'⟩
        refine ⟨?_, Nat.succ_le_succ (depthMembers_le_iff.mpr fun m hm => (hall m hm).2)⟩
        rw [unreserved, all, Bool.and_eq_true, allMembers_iff]
        exact ⟨by simp [hreserved], fun m hm => (hall m hm).1⟩

end EventIntake.Json.Value
