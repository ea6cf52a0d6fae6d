import EventIntake.Config.Convert
import EventIntake.Config.Environment
import Mathlib.Data.List.TakeWhile

/-! What is left of a text that was guessed to be a truth value or a number. -/
namespace EventIntake.Config.Environment
open Decimal

/-- The text of the value that a text spells: a truth value in small letters, a number in plain digits, anything else as
it is. -/
def respelled (s : String) : String :=
  if lower s.toList = "true".toList then "true"
  else if lower s.toList = "false".toList then "false"
  else match int64? 10 decimalDigit? s.toList with
    | some n => toString n.toInt
    | none =>
      match extended? s.toList with
      | some x => x.plainText
      | none => s

theorem text?_guess (s : String) : (guess s).text? = some (respelled s) := by
  simp only [guess, respelled]
  split_ifs
  · rfl
  · rfl
  · cases int64? 10 decimalDigit? s.toList with
    | some n => rfl
    | none => cases extended? s.toList <;> rfl

/-! ### Texts that spell nothing else -/

/-- Characters that truth values and numbers are spelled with. -/
def isSpelling (c : Char) : Bool :=
  isDigit c || "+-.".toList.contains c || "aefilnrstuy".toList.contains c.toLower

theorem spelling_of_digit {c : Char} (h : isDigit c = true) : isSpelling c = true := by simp [isSpelling, h]

theorem spelling_of_lower {cs word : List Char} (h : lower cs = word)
    (hword : word.all "aefilnrstuy".toList.contains = true) : ∀ c ∈ cs, isSpelling c = true := by
  intro c hc
  have hlower := List.all_eq_true.mp hword c.toLower (h ▸ List.mem_map_of_mem hc)
  rw [isSpelling, hlower, Bool.or_true]

theorem spelling_of_splitSign {cs : List Char} (h : ∀ c ∈ (splitSign cs).2, isSpelling c = true) :
    ∀ c ∈ cs, isSpelling c = true := by
  unfold splitSign at h
  split at h
  · exact List.forall_mem_cons.mpr ⟨rfl, h⟩
  · exact List.forall_mem_cons.mpr ⟨rfl, h⟩
  · exact h

theorem digits_of_mapM {cs : List Char} {ds : List Nat} (h : cs.mapM decimalDigit? = some ds) :
    ∀ c ∈ cs, isDigit c = true := by
  induction cs generalizing ds with
  | nil => simp
  | cons c cs ih =>
    rw [List.mapM_cons] at h
    obtain ⟨d, hd, h⟩ := Option.bind_eq_some_iff.mp h
    obtain ⟨rest, hrest, -⟩ := Option.bind_eq_some_iff.mp h
    refine List.forall_mem_cons.mpr ⟨?_, ih hrest⟩
    by_contra hc
    simp [decimalDigit?, hc] at hd

theorem spelling_of_wholeOf? {cs : List Char} {n : Int} (h : wholeOf? 10 decimalDigit? cs = some n) :
    ∀ c ∈ cs, isSpelling c = true := by
  refine spelling_of_splitSign fun c hc => ?_
  rw [wholeOf?] at h
  split at h
  simp only [Option.bind_eq_bind] at h
  split at h
  · cases h
  · obtain ⟨ds, hds, -⟩ := Option.bind_eq_some_iff.mp h
    exact spelling_of_digit (digits_of_mapM hds c (by simp_all))

theorem spelling_of_exponent? {cs : List Char} {e : Int} (h : exponent? cs = some e) :
    ∀ c ∈ cs, isSpelling c = true := by
  cases cs with
  | nil => simp
  | cons c rest =>
    rw [exponent?] at h
    split at h
    · rename_i hc
      exact List.forall_mem_cons.mpr ⟨by rcases hc with rfl | rfl <;> decide, spelling_of_wholeOf? h⟩
    · cases h

theorem spelling_of_extended? {cs : List Char} {x : Extended} (h : extended? cs = some x) :
    ∀ c ∈ cs, isSpelling c = true := by
  refine spelling_of_splitSign ?_
  obtain ⟨⟨negative, rest⟩, hsign⟩ : ∃ p, splitSign cs = p := ⟨_, rfl⟩
  rw [hsign]
  have hsplit {ds : List Char} (hrest : ∀ c ∈ ds.dropWhile isDigit, isSpelling c = true) :
      ∀ c ∈ ds, isSpelling c = true := by
    rw [← List.takeWhile_append_dropWhile (p := isDigit) (l := ds), List.forall_mem_append]
    exact ⟨fun c hc => spelling_of_digit (List.mem_takeWhile_imp hc), hrest⟩
  simp only [extended?, hsign] at h
  split_ifs at h with hinf hnan hempty
  · rcases hinf with hinf | hinf <;> exact spelling_of_lower hinf (by decide)
  · exact spelling_of_lower hnan (by decide)
  · obtain ⟨e, he, -⟩ := Option.bind_eq_some_iff.mp h
    refine hsplit ?_
    split at he
    · rename_i after hpoint
      rw [hpoint]
      exact List.forall_mem_cons.mpr ⟨rfl, hsplit (spelling_of_exponent? he)⟩
    · exact spelling_of_exponent? he

/-- A text with another character in it is left as it is. -/
theorem respelled_eq_self {s : String} (h : ∃ c ∈ s.toList, isSpelling c = false) : respelled s = s := by
  obtain ⟨c, hc, hother⟩ := h
  have hnot (hall : ∀ c ∈ s.toList, isSpelling c = true) : False :=
    Bool.false_ne_true (hother.symm.trans (hall c hc))
  rw [respelled, if_neg fun hw => hnot (spelling_of_lower hw (by decide)),
    if_neg fun hw => hnot (spelling_of_lower hw (by decide))]
  cases hn : int64? 10 decimalDigit? s.toList with
  | some n =>
    obtain ⟨m, hm, -⟩ := Option.bind_eq_some_iff.mp hn
    exact (hnot (spelling_of_wholeOf? hm)).elim
  | none =>
    cases hx : extended? s.toList with
    | some x => exact (hnot (spelling_of_extended? hx)).elim
    | none => rfl

end EventIntake.Config.Environment
