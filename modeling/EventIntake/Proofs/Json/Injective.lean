import EventIntake.Proofs.Decimal.Notation
import EventIntake.Proofs.Json.Items
import EventIntake.Proofs.Json.Raw
import EventIntake.Json.Value

/-! The compact text of a value tells it apart from all others. -/
namespace EventIntake.Json
open Decimal Grammar

/-! ### Numbers -/

theorem Grammar.numeral_parts (t : Parts) (negative : Bool) :
    Numeral ((if negative then ['-'] else []) ++ t.text) := by
  refine ⟨_, t.whole, if t.fraction = [] then [] else '.' :: t.fraction, t.power, ?_, ?_, ?_, ?_, rfl⟩
  · cases negative <;> simp
  · refine t.whole_form.imp id fun ⟨d, rest, hwhole, hd, hdigits⟩ => ⟨⟨by simp [hwhole], hdigits⟩, ?_⟩
    simpa [hwhole] using hd
  · split
    · exact .inl rfl
    · exact .inr ⟨t.fraction, ⟨‹_›, t.fraction_digits⟩, rfl⟩
  · refine t.power_form.imp id fun ⟨sign, ds, hsign, hne, hdigits, hpower⟩ => ?_
    exact ⟨'e', [sign], ds, .inl rfl, .inr (by simpa using hsign), ⟨hne, hdigits⟩, hpower⟩

theorem Number.numeral_write (n : Number) : Numeral n.write := by
  cases n with
  | whole n => exact numeral_toString n
  | real x =>
    obtain ⟨cs, hcs, t, rfl, _⟩ := x.text_parts
    rw [write, hcs]
    exact numeral_parts t x.negative

/-- Only the text of a whole number is digits and no more, but for its sign. -/
theorem Number.write_whole_ne_real (n : Int) (x : Binary64) : (whole n).write ≠ (real x).write := by
  obtain ⟨cs, hcs, t, rfl, _⟩ := x.text_parts
  obtain ⟨c, hc, hmark⟩ := t.mark
  have hplain : ∀ c ∈ (toString n).toList, c = '-' ∨ isDigit c = true := by
    rw [toString_eq, List.forall_mem_append]
    exact ⟨by split <;> simp, fun c hc => .inr (List.all_eq_true.mp (isDigit_toString _) c hc)⟩
  intro h
  have hmem : c ∈ (toString n).toList := by
    rw [write, write, hcs] at h
    exact h ▸ List.mem_append_right _ hc
  rcases hmark with rfl | rfl <;> exact absurd (hplain _ hmem) (by decide)

theorem Number.write_injective : Function.Injective write := by
  rintro (m | x) (n | y) h
  · rw [toString_injective (String.toList_inj.mp h)]
  · exact absurd h (write_whole_ne_real m y)
  · exact absurd h.symm (write_whole_ne_real n x)
  · rw [Binary64.text_injective (String.toList_inj.mp h)]

/-! ### Pieces between commas -/

/-- Where a piece of the shape ends is told by the piece. -/
def Delimited (shape : Shape) : Prop :=
  ∀ cs cs' rest rest', shape cs → shape cs' → Apart rest → Apart rest' → cs ++ rest = cs' ++ rest' →
    cs = cs' ∧ rest = rest'

theorem delimited_valid : Delimited Valid := by
  intro cs cs' rest rest' h h' hrest hrest' heq
  have hskip : Raw.skip (cs ++ rest) = .ok rest := Raw.skip_valid blanks_nil h hrest
  have hskip' : Raw.skip (cs' ++ rest') = .ok rest' := Raw.skip_valid blanks_nil h' hrest'
  rw [heq] at hskip
  cases hskip.symm.trans hskip'
  exact ⟨List.append_cancel_right heq, rfl⟩

theorem writeText_split {s s' : String} {rest rest' : List Char} (h : writeText s ++ rest = writeText s' ++ rest') :
    s = s' ∧ rest = rest' := by
  have hread : text (s.toList.flatMap escape ++ '"' :: rest) = .ok (s, rest) := (spells_written _).text rest
  have hread' : text (s'.toList.flatMap escape ++ '"' :: rest') = .ok (s', rest') := (spells_written _).text rest'
  have hinside : s.toList.flatMap escape ++ '"' :: rest = s'.toList.flatMap escape ++ '"' :: rest' := by
    simpa [writeText] using h
  rw [hinside] at hread
  cases hread.symm.trans hread'
  exact ⟨rfl, rfl⟩

/-- A member as it is written. -/
def Entry : Shape := fun cs => ∃ key value, Valid value ∧ cs = writeText key ++ ':' :: value

theorem delimited_entry : Delimited Entry := by
  rintro _ _ rest rest' ⟨key, value, h, rfl⟩ ⟨key', value', h', rfl⟩ hrest hrest' heq
  rw [List.append_assoc, List.append_assoc] at heq
  obtain ⟨rfl, hvalue⟩ := writeText_split heq
  obtain ⟨rfl, rfl⟩ := delimited_valid _ _ _ _ h h' hrest hrest' (List.tail_eq_of_cons_eq hvalue)
  exact ⟨rfl, rfl⟩

theorem Delimited.intercalate_inj {shape : Shape} (h : Delimited shape) (hne : ¬shape [])
    {pieces pieces' : List (List Char)} (hall : ∀ cs ∈ pieces, shape cs) (hall' : ∀ cs ∈ pieces', shape cs)
    (heq : [','].intercalate pieces = [','].intercalate pieces') : pieces = pieces' := by
  have hcons {piece : List Char} {pieces : List (List Char)} (hpiece : shape piece) :
      [','].intercalate (piece :: pieces) ≠ [] := by
    rw [intercalate_first]
    exact List.append_ne_nil_of_left_ne_nil (fun hnil => hne (hnil ▸ hpiece)) _
  have hapart (pieces : List (List Char)) : Apart (afterFirst pieces) := by
    simpa using apart_afterFirst pieces apart_nil
  -- The first pieces are the same since each is told from what follows it, which leaves the rest of both lists.
  induction pieces generalizing pieces' with
  | nil =>
    cases pieces' with
    | nil => rfl
    | cons => exact absurd heq.symm (hcons (hall' _ (.head _)))
  | cons piece pieces ih =>
    cases pieces' with
    | nil => exact absurd heq (hcons (hall _ (.head _)))
    | cons piece' pieces' =>
      rw [intercalate_first, intercalate_first] at heq
      obtain ⟨rfl, hafter⟩ := h _ _ _ _ (hall _ (.head _)) (hall' _ (.head _)) (hapart pieces) (hapart pieces') heq
      have hrest : [','].intercalate pieces = [','].intercalate pieces' := by
        cases pieces <;> cases pieces' <;> first | rfl | exact List.tail_eq_of_cons_eq hafter | cases hafter
      rw [ih (fun cs hcs => hall cs (.tail _ hcs)) (fun cs hcs => hall' cs (.tail _ hcs)) hrest]

/-! ### Lists and objects -/

theorem writeItems_inj {items items' : List (List Char)} (h : ∀ cs ∈ items, Valid cs) (h' : ∀ cs ∈ items', Valid cs)
    (heq : writeItems items = writeItems items') : items = items' := by
  refine delimited_valid.intercalate_inj ?_ h h' (List.append_cancel_right (List.tail_eq_of_cons_eq heq))
  rintro hnil
  obtain ⟨_, _, hcons, _⟩ := hnil.head
  cases hcons

theorem writeMembers_inj {ms ms' : List (String × List Char)} (h : ∀ m ∈ ms, Valid m.2) (h' : ∀ m ∈ ms', Valid m.2)
    (heq : writeMembers ms = writeMembers ms') : ms = ms' := by
  have hentry {ms : List (String × List Char)} (h : ∀ m ∈ ms, Valid m.2) :
      ∀ cs ∈ ms.map fun m => writeText m.1 ++ ':' :: m.2, Entry cs := by
    rintro _ hcs
    obtain ⟨m, hm, rfl⟩ := List.mem_map.mp hcs
    exact ⟨m.1, m.2, h m hm, rfl⟩
  have hmember : Function.Injective fun m : String × List Char => writeText m.1 ++ ':' :: m.2 := by
    intro m m' heq
    obtain ⟨hkey, hvalue⟩ := writeText_split heq
    exact Prod.ext hkey (List.tail_eq_of_cons_eq hvalue)
  have hnil : ¬Entry [] := by
    rintro ⟨key, value, _, heq⟩
    cases heq
  exact hmember.list_map (delimited_entry.intercalate_inj hnil (hentry h) (hentry h')
    (List.append_cancel_right (List.tail_eq_of_cons_eq heq)))

theorem Grammar.valid_writeItems {items : List (List Char)} (h : ∀ cs ∈ items, Valid cs) :
    Valid (writeItems items) := by
  cases items with
  | nil => exact .noItems blanks_nil
  | cons cs items =>
    refine .list ?_
    induction items generalizing cs with
    | nil =>
      have hitem : Written .items ([] ++ (cs ++ [])) := .item blanks_nil (h cs (.head _)) blanks_nil
      simpa using hitem
    | cons next items ih =>
      rw [List.intercalate_cons_cons, List.append_assoc]
      exact .items blanks_nil (h cs (.head _)) blanks_nil (ih next fun cs hcs => h cs (.tail _ hcs))

theorem Grammar.valid_writeMembers {ms : List (String × List Char)} (h : ∀ m ∈ ms, Valid m.2) :
    Valid (writeMembers ms) := by
  cases ms with
  | nil => exact .noMembers blanks_nil
  | cons m ms =>
    refine .object ?_
    have hkey (m : String × List Char) : Padded (Quoted Body) (writeText m.1) := padded_of (quoted_writeText m.1)
    induction ms generalizing m with
    | nil =>
      have hmember : Written .members (writeText m.1 ++ ':' :: ([] ++ (m.2 ++ []))) :=
        .member (hkey m) blanks_nil (h m (.head _)) blanks_nil
      simpa using hmember
    | cons next ms ih =>
      rw [List.map_cons, List.map_cons, List.intercalate_cons_cons, List.append_assoc, List.append_assoc]
      exact .members (hkey m) blanks_nil (h m (.head _)) blanks_nil (ih next fun m hm => h m (.tail _ hm))

namespace Value

mutual

theorem valid_write : (v : Value) → Valid v.write
  | .null => .null
  | .bool true => .true
  | .bool false => .false
  | .number n => .number n.numeral_write
  | .text s => .text (quoted_writeText s)
  | .list vs => valid_writeItems (valid_writeList vs)
  | .object ms => valid_writeMembers (valid_writeObject ms)

theorem valid_writeList : (vs : List Value) → ∀ cs ∈ writeList vs, Valid cs
  | [] => by simp [writeList]
  | v :: vs => List.forall_mem_cons.mpr ⟨valid_write v, valid_writeList vs⟩

theorem valid_writeObject : (ms : List (String × Value)) → ∀ m ∈ writeObject ms, Valid m.2
  | [] => by simp [writeObject]
  | (_, v) :: ms => List.forall_mem_cons.mpr ⟨valid_write v, valid_writeObject ms⟩

end

/-- What the text of a value starts with, where a digit stands for all of them and for the sign. -/
def opening : Value → Char
  | .null => 'n'
  | .bool true => 't'
  | .bool false => 'f'
  | .number _ => '0'
  | .text _ => '"'
  | .list _ => '['
  | .object _ => '{'

theorem head_write (v : Value) :
    ∃ c cs, v.write = c :: cs ∧ (if c = '-' ∨ isDigit c = true then '0' else c) = v.opening := by
  cases v with
  | bool b => cases b <;> exact ⟨_, _, rfl, rfl⟩
  | number n =>
    obtain ⟨c, cs, hwrite, hc⟩ := n.numeral_write.head
    exact ⟨c, cs, hwrite, if_pos hc⟩
  | _ => exact ⟨_, _, rfl, rfl⟩

theorem opening_eq {v w : Value} (h : v.write = w.write) : v.opening = w.opening := by
  obtain ⟨c, cs, hv, hopening⟩ := v.head_write
  obtain ⟨d, ds, hw, hopening'⟩ := w.head_write
  rw [hv, hw] at h
  cases h
  rw [← hopening, ← hopening']

mutual

theorem write_inj (v w : Value) (h : v.write = w.write) : v = w := by
  have hopening := opening_eq h
  rcases v with _ | (_ | _) | m | s | vs | ms <;> rcases w with _ | (_ | _) | n | s' | ws | ns <;>
    simp only [opening, Char.reduceEq] at hopening
  case number.number => rw [Number.write_injective h]
  case text.text =>
    have hrest : writeText s ++ [] = writeText s' ++ [] := congrArg (· ++ []) h
    rw [(writeText_split hrest).1]
  case list.list =>
    rw [writeList_inj vs ws (writeItems_inj (valid_writeList vs) (valid_writeList ws) h)]
  case object.object =>
    rw [writeObject_inj ms ns (writeMembers_inj (valid_writeObject ms) (valid_writeObject ns) h)]
  all_goals rfl

theorem writeList_inj : (vs ws : List Value) → writeList vs = writeList ws → vs = ws
  | [], [], _ => rfl
  | [], w :: ws, h => by cases h
  | v :: vs, [], h => by cases h
  | v :: vs, w :: ws, h => by
    obtain ⟨hv, hvs⟩ := List.cons_eq_cons.mp h
    rw [write_inj v w hv, writeList_inj vs ws hvs]

theorem writeObject_inj : (ms ns : List (String × Value)) → writeObject ms = writeObject ns → ms = ns
  | [], [], _ => rfl
  | [], n :: ns, h => by cases h
  | m :: ms, [], h => by cases h
  | (key, v) :: ms, (key', w) :: ns, h => by
    obtain ⟨hm, hms⟩ := List.cons_eq_cons.mp h
    obtain ⟨rfl, hv⟩ := Prod.mk.inj hm
    rw [write_inj v w hv, writeObject_inj ms ns hms]

end

end Value

end EventIntake.Json
