import EventIntake.Proofs.Json.Settling

/-! What a codec makes of a value does not depend on what comes behind it. The value is read to its end, or refused for
the same fault. -/
namespace EventIntake.Json
open Decimal Grammar

/-! ### Codecs -/

namespace Codec
variable {α β : Type} {cs : List Char}

/-- A codec passes over blanks, and decides on a value without what comes behind it. -/
structure Decides (c : Codec α) : Prop where
  blanks : ∀ depth {before} cs, Blanks before → c.read depth (before ++ cs) = c.read depth cs
  settles : ∀ depth {cs}, Valid cs → Settles (c.read depth) cs

theorem Decides.padded {c : Codec α} (h : c.Decides) (depth : Nat) {before : List Char} (hb : Blanks before)
    (hv : Valid cs) : Settles (c.read depth) (before ++ cs) := by
  obtain ⟨result, hresult⟩ := h.settles depth hv
  refine ⟨result, fun {rest} hr => ?_⟩
  rw [List.append_assoc, h.blanks _ _ hb, hresult hr]

theorem Decides.decode {c : Codec α} (h : c.Decides) {s t : String} (ht : Valid t.toList)
    (hs : Padded (· = t.toList) s.toList) : c.decode s = c.decode t := by
  obtain ⟨before, _, after, hbefore, rfl, hafter, he⟩ := hs
  obtain ⟨result, hresult⟩ := h.settles maxDepth ht
  have hpadded := hresult (List.append_nil after ▸ hafter.apart apart_nil)
  have hbare := hresult apart_nil
  rw [List.append_nil] at hbare
  have hend : skipBlank [] = [] := rfl
  simp only [Codec.decode, finish, he, h.blanks _ _ hbefore, hpadded, hbare]
  cases result with
  | error fault => rfl
  | ok a => simp [bind, Except.bind, Functor.map, Except.map, skipBlank_blanks hafter, hend]

theorem afterBlank_append (read : Reader α) {before : List Char} (hb : Blanks before) (cs : List Char) :
    afterBlank read (before ++ cs) = afterBlank read cs := by
  rw [afterBlank, afterBlank, skipBlank_append hb]

theorem settles_afterBlank {read : Reader α} (hv : Valid cs) (h : Settles read cs) : Settles (afterBlank read) cs := by
  obtain ⟨result, hresult⟩ := h
  obtain ⟨c, tail, rfl, hc, _⟩ := hv.head
  exact ⟨result, fun {rest} hr => (afterBlank_cons blanks_nil hc (tail ++ rest)).trans (hresult hr)⟩

/-- A value of another kind than the wanted one is refused by its kind alone. -/
theorem settles_mismatch {read : Reader α} (want : String) (hv : Valid cs)
    (h : ∀ rest, read (cs ++ rest) = .error (mismatch want (cs ++ rest))) : Settles read cs := by
  refine ⟨.error (mismatch want cs), fun {rest} hr => ?_⟩
  rw [h, mismatch_append want hv hr]
  rfl

theorem decides_map {c : Codec α} (h : c.Decides) (f : α → β) (back : β → α) : (c.map f back).Decides where
  blanks depth _ cs hb := by simp only [Codec.map, h.blanks depth cs hb]
  settles depth _ hv := by
    obtain ⟨result, hresult⟩ := h.settles depth hv
    refine ⟨f <$> result, fun hr => ?_⟩
    simp only [Codec.map, hresult hr]
    cases result <;> rfl

theorem decides_text : text.Decides where
  blanks _ _ cs hb := afterBlank_append _ hb cs
  settles _ cs hv := by
    refine settles_afterBlank hv ?_
    obtain ⟨c, inside, rfl, _⟩ := hv.head
    by_cases hquote : c = '"'
    · obtain rfl := hquote
      obtain ⟨body, hbody, rfl⟩ := hv.quoted
      obtain ⟨result, hresult⟩ := text_body hbody
      refine ⟨result, fun {rest} _ => ?_⟩
      rw [← hresult rest, List.cons_append, List.append_assoc]
      rfl
    · refine settles_mismatch "a string" hv fun rest => ?_
      split
      · rename_i he
        cases he
        exact absurd rfl hquote
      · rfl

theorem decides_integer (want : String) (low high : Int) : (integer want low high).Decides where
  blanks _ _ cs hb := afterBlank_append _ hb cs
  settles _ cs hv := by
    refine settles_afterBlank hv ?_
    obtain ⟨c, inside, rfl, _⟩ := hv.head
    by_cases hc : c = '-' ∨ isDigit c = true
    · obtain ⟨result, hresult⟩ := number_settles (hv.numeral hc)
      have hread {rest : List Char} (hr : Apart rest) : number (c :: (inside ++ rest)) = _ := hresult hr
      rcases result with fault | ⟨n⟩ | x
      · refine ⟨.error fault, fun {rest} hr => ?_⟩
        simp only [List.cons_append, if_pos hc, hread hr]
        rfl
      · refine ⟨if low ≤ n ∧ n ≤ high then .ok n else .error (.rejected
          ("invalid value: " ++ (Number.whole n).describe ++ ", expected " ++ want)), fun {rest} hr => ?_⟩
        simp only [List.cons_append, if_pos hc, hread hr, bind, Except.bind, Functor.map, Except.map]
        split <;> rfl
      · refine ⟨.error (.rejected ("invalid type: " ++ (Number.real x).describe ++ ", expected " ++ want)),
          fun {rest} hr => ?_⟩
        simp only [List.cons_append, if_pos hc, hread hr]
        rfl
    · refine settles_mismatch want hv fun rest => ?_
      rw [List.cons_append]
      exact if_neg hc

theorem decides_int64 : int64.Decides := decides_map (decides_integer "i64" _ _) _ _

theorem decides_uint64 : uint64.Decides := decides_map (decides_integer "u64" _ _) _ _

end Codec

/-! ### Members -/

theorem Grammar.Upcoming.apart {part : Part} {cs : List Char} (h : Upcoming part false cs) {rest : List Char}
    (hr : Apart rest) : Apart (cs ++ rest) := by
  rcases h with h | ⟨gap, pieces, hgap, _, rfl⟩
  · exact h.apart hr
  · rw [List.append_assoc]
    exact hgap.apart (apart_cons (by simp) _)

section Members
variable {σ : Type} {step : σ → String → Reader σ}

/-- A step decides on the colon and the value of a member, under whatever key. -/
def Decisive (step : σ → String → Reader σ) : Prop :=
  ∀ s name {gap before value}, Blanks gap → Blanks before → Valid value →
    Settles (step s name) (gap ++ ':' :: (before ++ value))

/-- What stands before the closing brace is read to its end, or refused for one fault, if there is fuel for it. -/
def SettlesMembers (step : σ → String → Reader σ) (first : Bool) (cs : List Char) : Prop :=
  ∀ s, ∃ result : Except Fault σ, ∀ fuel rest, cs.length ≤ fuel →
    membersUpTo step (fuel + 1) first s (cs ++ '}' :: rest) = (fun s' => (s', '}' :: rest)) <$> result

theorem settlesMembers_blanks (first : Bool) {blanks : List Char} (hb : Blanks blanks) :
    SettlesMembers step first blanks := by
  refine fun s => ⟨.ok s, fun fuel rest _ => ?_⟩
  rw [membersUpTo_blanks hb]
  exact membersUpTo_end fuel first s rest

/-- A member is read off, or refused for one fault. -/
theorem membersUpTo_settles (hstep : Decisive step) {key before value : List Char} (hk : Padded (Quoted Body) key)
    (hb : Blanks before) (hv : Valid value) (s : σ) :
    ∃ result : Except Fault σ, ∀ fuel {rest}, Apart rest →
      membersUpTo step (fuel + 1) true s (key ++ ':' :: (before ++ (value ++ rest))) =
        result >>= fun s' => membersUpTo step fuel false s' rest := by
  obtain ⟨ahead, _, gap, hahead, ⟨body, hbody, rfl⟩, hgap, rfl⟩ := hk
  obtain ⟨name, hname⟩ := text_body hbody
  have hquote : isBlank '"' = false := rfl
  have hkey (rest : List Char) : nextKey true (ahead ++ ('"' :: (body ++ ['"']) ++ gap) ++ rest) =
      (fun name => (some name, gap ++ rest)) <$> name := by
    simp only [nextKey, List.append_assoc, List.cons_append, List.nil_append, skipBlank_append hahead,
      skipBlank_cons hquote, nextKey.key, hname]
    cases name <;> rfl
  cases name with
  | error fault =>
    refine ⟨.error fault, fun fuel {rest} _ => ?_⟩
    rw [membersUpTo, hkey]
    rfl
  | ok name =>
    obtain ⟨result, hresult⟩ := hstep s name hgap hb hv
    refine ⟨result, fun fuel {rest} hr => ?_⟩
    have hvalue := hresult hr
    simp only [List.append_assoc, List.cons_append] at hvalue
    rw [membersUpTo, hkey]
    simp only [Functor.map, Except.map, bind, Except.bind, hvalue]
    cases result <;> rfl

/-- A member in front takes one unit of fuel, and some of the text. -/
theorem settlesMembers_member (hstep : Decisive step) {key before value left : List Char}
    (hk : Padded (Quoted Body) key) (hb : Blanks before) (hv : Valid value) (hleft : Upcoming .members false left)
    (h : SettlesMembers step false left) : SettlesMembers step true (key ++ ':' :: (before ++ (value ++ left))) := by
  intro s
  obtain ⟨result, hresult⟩ := membersUpTo_settles hstep hk hb hv s
  have hclose (rest : List Char) : Apart (left ++ '}' :: rest) := hleft.apart (apart_cons (by simp) rest)
  have hfirst (fuel : Nat) (rest : List Char) := hresult fuel (hclose rest)
  simp only [List.append_assoc, List.cons_append]
  cases result with
  | error fault => exact ⟨.error fault, fun fuel rest _ => hfirst fuel rest⟩
  | ok s' =>
    obtain ⟨result, hothers⟩ := h s'
    refine ⟨result, fun fuel rest hf => (hfirst fuel rest).trans ?_⟩
    have hsize : left.length + 1 ≤ fuel := by
      simp only [List.length_append, List.length_cons] at hf
      omega
    obtain ⟨fuel, rfl⟩ := Nat.exists_eq_add_of_le' hsize
    exact hothers (fuel + left.length) rest (by omega)

theorem settlesMembers_comma {gap pieces : List Char} (hgap : Blanks gap) (hpieces : Written .members pieces)
    (h : SettlesMembers step true pieces) : SettlesMembers step false (gap ++ ',' :: pieces) := by
  have hkey : ∃ key after, Padded (Quoted Body) key ∧ pieces = key ++ after := by
    cases hpieces with
    | member hk _ _ _ => exact ⟨_, _, hk, rfl⟩
    | members hk _ _ _ _ => exact ⟨_, _, hk, rfl⟩
  obtain ⟨key, after, hkey, rfl⟩ := hkey
  intro s
  obtain ⟨result, hresult⟩ := h s
  refine ⟨result, fun fuel rest hf => ?_⟩
  have hsize : (key ++ after).length ≤ fuel := by
    simp only [List.length_append, List.length_cons] at hf ⊢
    omega
  rw [← hresult fuel rest hsize, List.append_assoc, membersUpTo_blanks hgap, List.cons_append, List.append_assoc,
    membersUpTo_next hkey]

theorem settlesMembers_written (hstep : Decisive step) {part : Part} {cs : List Char} (h : Written part cs)
    (hp : part = .members) : SettlesMembers step true cs := by
  induction h with
  | member hk hb hv ha => exact settlesMembers_member hstep hk hb hv (.inl ha) (settlesMembers_blanks false ha)
  | members hk hb hv ha hms _ ih =>
    exact settlesMembers_member hstep hk hb hv (.inr ⟨_, _, ha, hms, rfl⟩) (settlesMembers_comma ha hms (ih hp))
  | _ => cases hp

theorem settlesMembers_upcoming (hstep : Decisive step) {cs : List Char} (h : Upcoming .members true cs) :
    SettlesMembers step true cs :=
  h.elim (settlesMembers_blanks true) fun h => settlesMembers_written hstep h rfl

end Members

/-! ### Elements -/

section Items
variable {first : Bool} {cs : List Char}

theorem Grammar.Written.splitItems (h : Written .items cs) :
    ∃ before value left, Blanks before ∧ Valid value ∧ Upcoming .items Bool.false left ∧ cs = before ++ (value ++ left) := by
  cases h with
  | item hb hv ha => exact ⟨_, _, _, hb, hv, .inl ha, rfl⟩
  | items hb hv ha hitems => exact ⟨_, _, _, hb, hv, .inr ⟨_, _, ha, hitems, rfl⟩, rfl⟩

/-- The next element comes right away, or there is none. -/
theorem nextItem_upcoming (h : Upcoming .items first cs) :
    (∀ rest, nextItem first (cs ++ ']' :: rest) = .ok (false, ']' :: rest)) ∨
      ∃ value left, Valid value ∧ Upcoming .items false left ∧
        ∀ rest, nextItem first (cs ++ ']' :: rest) = .ok (true, value ++ (left ++ ']' :: rest)) := by
  have hbracket : isBlank ']' = false := rfl
  have hcomma : isBlank ',' = false := rfl
  have hblanks : ∀ {cs}, Blanks cs → ∀ rest, nextItem first (cs ++ ']' :: rest) = .ok (false, ']' :: rest) := by
    intro cs hb rest
    simp [nextItem, skipBlank_append hb, skipBlank_cons hbracket]
  cases first with
  | true =>
    refine h.imp hblanks fun h => ?_
    obtain ⟨before, value, left, hb, hv, hleft, rfl⟩ := h.splitItems
    obtain ⟨c, tail, rfl, hc, hclose⟩ := hv.head
    refine ⟨_, left, hv, hleft, fun rest => ?_⟩
    simp [nextItem, skipBlank_append hb, skipBlank_cons hc, hclose]
  | false =>
    refine h.imp hblanks ?_
    rintro ⟨gap, _, hgap, hpieces, rfl⟩
    obtain ⟨before, value, left, hb, hv, hleft, rfl⟩ := hpieces.splitItems
    obtain ⟨c, tail, rfl, hc, hclose⟩ := hv.head
    refine ⟨_, left, hv, hleft, fun rest => ?_⟩
    simp [nextItem, skipBlank_append hgap, skipBlank_append hb, skipBlank_cons hcomma, skipBlank_cons hc, hclose]

/-- A list must end where its elements do. -/
theorem endList_upcoming (h : Upcoming .items first cs) :
    ∃ result : Except Fault Unit, ∀ rest, endList (cs ++ ']' :: rest) = (fun _ => rest) <$> result := by
  have hbracket : isBlank ']' = false := rfl
  have hcomma : isBlank ',' = false := rfl
  have hblanks : ∀ {cs}, Blanks cs →
      ∃ result : Except Fault Unit, ∀ rest, endList (cs ++ ']' :: rest) = (fun _ => rest) <$> result := by
    refine fun hb => ⟨.ok (), fun rest => ?_⟩
    simp [endList, skipBlank_append hb, skipBlank_cons hbracket, Functor.map, Except.map]
  cases first with
  | true =>
    refine h.elim hblanks fun h => ?_
    obtain ⟨before, value, left, hb, hv, hleft, rfl⟩ := h.splitItems
    obtain ⟨c, tail, rfl, hc, hclose⟩ := hv.head
    refine ⟨.error .trailingText, fun rest => ?_⟩
    simp [endList, skipBlank_append hb, skipBlank_cons hc, hclose, hv.ne_comma, Functor.map, Except.map]
  | false =>
    refine h.elim hblanks ?_
    rintro ⟨gap, _, hgap, hpieces, rfl⟩
    obtain ⟨before, value, left, hb, hv, hleft, rfl⟩ := hpieces.splitItems
    obtain ⟨c, tail, rfl, hc, hclose⟩ := hv.head
    refine ⟨.error .trailingText, fun rest => ?_⟩
    simp [endList, skipBlank_append hgap, skipBlank_append hb, skipBlank_cons hcomma, skipBlank_cons hc, hclose,
      Functor.map, Except.map]

end Items

/-! ### Objects -/

section Objects
variable {σ : Type} {step : σ → String → Reader σ} {cs : List Char}

theorem membersUpTo_upcoming (hstep : Decisive step) (h : Upcoming .members true cs) (s : σ) :
    ∃ result : Except Fault σ, ∀ rest,
      membersUpTo step ((cs ++ ['}'] ++ rest).length + 1) true s (cs ++ ['}'] ++ rest) =
        (fun s' => (s', '}' :: rest)) <$> result := by
  obtain ⟨result, hresult⟩ := settlesMembers_upcoming hstep h s
  refine ⟨result, fun rest => ?_⟩
  rw [List.append_assoc]
  exact hresult _ rest (by simp)

theorem Codec.decisive_keepText : Decisive keepText := by
  intro kept name gap before value hgap hb hv
  refine ⟨.ok (Sorted.insert name (String.ofList value) kept), fun {rest} hr => ?_⟩
  simp only [keepText, List.append_assoc, List.cons_append, colon_blanks hgap, Raw.read_valid hb hv hr, bind, Except.bind]
  rfl

theorem Codec.decides_rawMembers : rawMembers.Decides where
  blanks _ _ cs hb := afterBlank_append _ hb cs
  settles depth cs hv := by
    refine settles_afterBlank hv ?_
    obtain ⟨c, inside, rfl, _⟩ := hv.head
    by_cases hbrace : c = '{'
    · obtain rfl := hbrace
      obtain ⟨cs, hcs, rfl⟩ := hv.braced
      cases depth with
      | zero => exact ⟨.error .tooDeep, fun _ => rfl⟩
      | succ depth =>
        obtain ⟨result, hresult⟩ := membersUpTo_upcoming decisive_keepText hcs []
        refine ⟨result, fun {rest} _ => ?_⟩
        refine (congrArg (· >>= _) (hresult rest)).trans ?_
        cases result <;> rfl
    · refine settles_mismatch "a map" hv fun rest => ?_
      split
      · rename_i he
        cases he
        exact absurd rfl hbrace
      · rfl

end Objects

/-! ### Structures -/

section Record
variable {fs : List Field} {depth : Nat}

theorem Slots.fill_settles (hfs : ∀ f ∈ fs, f.codec.Decides) {slots : Slots fs} {key : String}
    {fill : Nat → Reader (Slots fs)} (hl : lookup fs slots key = .free fill) {before value : List Char}
    (hb : Blanks before) (hv : Valid value) : Settles (fill depth) (before ++ value) := by
  induction fs with
  | nil => cases hl
  | cons f fs ih =>
    obtain ⟨hf, hfs⟩ := List.forall_mem_cons.mp hfs
    obtain ⟨slot, slots⟩ := slots
    simp only [lookup] at hl
    split at hl
    · split at hl
      · cases hl
      · cases hl
        exact (hf.padded depth hb hv).map fun a => (some a, slots)
    · cases hk : lookup fs slots key with
      | unknown => simp [hk] at hl
      | taken => simp [hk] at hl
      | free fill' =>
        simp only [hk] at hl
        cases hl
        exact (ih hfs hk).map fun slots => (slot, slots)

theorem Slots.decisive_member (hfs : ∀ f ∈ fs, f.codec.Decides) : Decisive (member fs depth) := by
  intro slots key gap before value hgap hb hv
  cases hl : lookup fs slots key with
  | unknown =>
    refine ⟨.ok slots, fun {rest} hr => ?_⟩
    simp only [member, hl, List.append_assoc, List.cons_append, colon_blanks hgap, Raw.skip_valid hb hv hr, bind,
      Except.bind]
    rfl
  | taken =>
    refine ⟨.error (.rejected ("duplicate field `" ++ key ++ "`")), fun {rest} hr => ?_⟩
    simp only [member, hl]
    rfl
  | free fill =>
    have hfill : Settles (fill depth) (before ++ value) := fill_settles hfs hl hb hv
    obtain ⟨result, hresult⟩ := hfill
    refine ⟨result, fun {rest} hr => ?_⟩
    have hread := hresult hr
    rw [List.append_assoc] at hread
    simp only [member, hl, List.append_assoc, List.cons_append, colon_blanks hgap, bind, Except.bind, hread]

/-- The fields are read from the first elements, or refused for one fault. What is left is read no further. -/
theorem Values.fromItems_settles (hfs : ∀ f ∈ fs, f.codec.Decides) (size : String) (depth : Nat) {first : Bool}
    (index : Nat) {cs : List Char} (h : Upcoming .items first cs) :
    ∃ result : Except Fault (Values fs × List Char),
      (∀ values left, result = .ok (values, left) → ∃ first', Upcoming .items first' left) ∧
      ∀ rest, fromItems size depth fs first index (cs ++ ']' :: rest) = (fun r => (r.1, r.2 ++ ']' :: rest)) <$> result := by
  -- The induction is on the fields, not on the elements: a list may be longer or shorter than the structure.
  induction fs generalizing first index cs with
  | nil =>
    refine ⟨.ok ((), cs), fun values left he => ?_, fun rest => rfl⟩
    cases he
    exact ⟨first, h⟩
  | cons f fs ih =>
    obtain ⟨hf, hfs⟩ := List.forall_mem_cons.mp hfs
    rcases nextItem_upcoming h with hnext | ⟨value, left, hv, hleft, hnext⟩
    · cases ha : f.absent with
      | none =>
        refine ⟨.error (.rejected ("invalid length " ++ toString index ++ ", expected " ++ size)), by simp, fun rest => ?_⟩
        simp only [fromItems, hnext, ha, bind, Except.bind]
        rfl
      | some a =>
        have hnothing : Upcoming .items first [] := by
          cases first <;> exact .inl blanks_nil
        obtain ⟨result, hleft, hresult⟩ := ih hfs (index + 1) hnothing
        refine ⟨(fun r => ((a, r.1), r.2)) <$> result, fun values left he => ?_, fun rest => ?_⟩
        · obtain ⟨⟨others, _⟩, hothers, he⟩ := map_ok.mp he
          cases he
          exact hleft others _ hothers
        · have hothers := hresult rest
          rw [List.nil_append] at hothers
          simp only [fromItems, hnext, ha, bind, Except.bind, hothers]
          cases result <;> rfl
    · obtain ⟨result, hread⟩ := hf.settles depth hv
      have hclose (rest : List Char) : Apart (left ++ ']' :: rest) := hleft.apart (apart_cons (by simp) rest)
      cases result with
      | error fault =>
        refine ⟨.error fault, by simp, fun rest => ?_⟩
        simp only [fromItems, hnext, hread (hclose rest), bind, Except.bind, if_true]
        rfl
      | ok a =>
        obtain ⟨result, hremains, hresult⟩ := ih hfs (index + 1) hleft
        refine ⟨(fun r => ((a, r.1), r.2)) <$> result, fun values left he => ?_, fun rest => ?_⟩
        · obtain ⟨⟨others, _⟩, hothers, he⟩ := map_ok.mp he
          cases he
          exact hremains others _ hothers
        · simp only [fromItems, hnext, hread (hclose rest), bind, Except.bind, if_true, Functor.map, Except.map, hresult]
          cases result <;> rfl

theorem Codec.decides_record {α : Type} (name : String) (hfs : ∀ f ∈ fs, f.codec.Decides) (of : Values fs → α)
    (fields : α → Values fs) : (record name fs of fields).Decides where
  blanks _ _ cs hb := afterBlank_append _ hb cs
  settles depth cs hv := by
    refine settles_afterBlank hv ?_
    obtain ⟨c, inside, rfl, _⟩ := hv.head
    by_cases hbracket : c = '['
    · obtain rfl := hbracket
      obtain ⟨cs, hcs, rfl⟩ := hv.bracketed
      cases depth with
      | zero => exact ⟨.error .tooDeep, fun _ => rfl⟩
      | succ depth =>
        obtain ⟨result, hleft, hresult⟩ := Values.fromItems_settles hfs (sizeOf name fs) depth 0 hcs
        have hitems (rest : List Char) := (congrArg (Values.fromItems (sizeOf name fs) depth fs true 0)
          (List.append_assoc cs [']'] rest)).trans (hresult rest)
        cases result with
        | error fault =>
          refine ⟨.error fault, fun {rest} _ => ?_⟩
          exact congrArg (· >>= _) (hitems rest)
        | ok read =>
          obtain ⟨values, left⟩ := read
          obtain ⟨first', hupcoming⟩ := hleft values left rfl
          obtain ⟨finish, hfinish⟩ := endList_upcoming hupcoming
          refine ⟨(fun _ => of values) <$> finish, fun {rest} _ => ?_⟩
          refine (congrArg (· >>= _) (hitems rest)).trans ?_
          change (endList (left ++ ']' :: rest) >>= fun rest => .ok (of values, rest)) = _
          rw [hfinish]
          cases finish <;> rfl
    by_cases hbrace : c = '{'
    · obtain rfl := hbrace
      obtain ⟨cs, hcs, rfl⟩ := hv.braced
      cases depth with
      | zero => exact ⟨.error .tooDeep, fun _ => rfl⟩
      | succ depth =>
        obtain ⟨result, hresult⟩ := membersUpTo_upcoming (Slots.decisive_member hfs) hcs (Slots.empty fs)
        refine ⟨result >>= fun slots => of <$> Slots.complete fs slots, fun {rest} _ => ?_⟩
        refine (congrArg (· >>= _) (hresult rest)).trans ?_
        cases result with
        | error fault => rfl
        | ok slots =>
          change (Slots.complete fs slots >>= fun values => .ok (of values, rest)) =
            (fun a => (a, rest)) <$> of <$> Slots.complete fs slots
          cases Slots.complete fs slots <;> rfl
    · refine settles_mismatch ("struct " ++ name) hv fun rest => ?_
      split
      · rename_i he
        cases he
        exact absurd rfl hbracket
      · rename_i he
        cases he
        exact absurd rfl hbrace
      · rfl

end Record

end EventIntake.Json
