import EventIntake.Proofs.Config.Yaml.Lines
import EventIntake.Proofs.Text.Hex

/-! Scalars between quotes on one line, and the texts they stand for. -/
namespace EventIntake.Config.Yaml
open Text

/-- What may stand between two marks for a text. Only double marks know escapes, and a single mark is written twice. -/
inductive Quotes (mark : Char) : List Char → List Char → Prop
  | nil : Quotes mark [] []
  | kept {c : Char} {cs ds : List Char} (hmark : c ≠ mark) (hend : c ≠ '\n') (hplain : c = '\\' → mark ≠ '"') :
      Quotes mark cs ds → Quotes mark (c :: cs) (c :: ds)
  | doubled {cs ds : List Char} (hmark : mark = '\'') :
      Quotes mark cs ds → Quotes mark ('\'' :: '\'' :: cs) ('\'' :: ds)
  | escaped {c d : Char} {cs ds : List Char} (hmark : mark = '"') (h : escape? c = some (.inl d)) :
      Quotes mark cs ds → Quotes mark ('\\' :: c :: cs) (d :: ds)
  | coded {c : Char} {digits cs ds : List Char} (hmark : mark = '"') (h : escape? c = some (.inr digits.length))
      (hdigits : ∀ d ∈ digits, Hex.IsDigit d) (hvalid : (Hex.value digits).isValidChar) :
      Quotes mark cs ds → Quotes mark ('\\' :: c :: (digits ++ cs)) (Char.ofNat (Hex.value digits) :: ds)

/-- Every text can be written between double marks. -/
theorem exists_quotes (ds : List Char) : ∃ cs, Quotes '"' cs ds ∧ ∀ c ∈ cs, isOrdinary c = true := by
  induction ds with
  | nil => exact ⟨[], .nil, by simp⟩
  | cons d ds ih =>
    obtain ⟨cs, hcs, hordinary⟩ := ih
    have hescape (c : Char) (h : escape? c = some (.inl d)) (hc : isOrdinary c = true) :
        ∃ cs, Quotes '"' cs (d :: ds) ∧ ∀ c ∈ cs, isOrdinary c = true :=
      ⟨_, .escaped rfl h hcs, List.forall_mem_cons.mpr ⟨rfl, List.forall_mem_cons.mpr ⟨hc, hordinary⟩⟩⟩
    by_cases hplain : isOrdinary d = true ∧ d ∉ ['"', '\\', '\n']
    · obtain ⟨hd, hnot⟩ := hplain
      simp only [List.mem_cons, List.not_mem_nil, or_false, not_or] at hnot
      exact ⟨d :: cs, .kept hnot.1 hnot.2.2 (fun h => absurd h hnot.2.1) hcs, List.forall_mem_cons.mpr ⟨hd, hordinary⟩⟩
    · have hspecial : d ∈ ['"', '\\', '\n', '\r', Char.ofNat 0] := by
        by_contra hnot
        simp only [List.mem_cons, List.not_mem_nil, or_false, not_or] at hnot
        obtain ⟨hquote, hslash, hend, hreturn, hnull⟩ := hnot
        have hzero : d.toNat ≠ 0 := fun hzero => hnull (by rw [← hzero, Char.ofNat_toNat])
        exact hplain ⟨by simp [isOrdinary, hreturn, hzero], by simp [hquote, hslash, hend]⟩
      simp only [List.mem_cons, List.not_mem_nil, or_false] at hspecial
      rcases hspecial with rfl | rfl | rfl | rfl | rfl
      · exact hescape '"' rfl rfl
      · exact hescape '\\' rfl rfl
      · exact hescape 'n' rfl rfl
      · exact hescape 'r' rfl rfl
      · exact hescape '0' rfl rfl

/-! ### Reading -/

/-- Within a line: between two characters or after some blanks. -/
def Place.Within : Place → Prop
  | plain | blanks _ => True
  | _ => False

section Steps
variable {mark : Char} {least : Nat} {place : Place} (hplace : place.Within) {done rest : List Char} {column : Nat}
include hplace

theorem Place.Within.blank (done : List Char) (c : Char) :
    (place.blank c).Within ∧ (place.blank c).settle done = c :: place.settle done := by
  cases place with
  | plain => exact ⟨trivial, rfl⟩
  | blanks bs => exact ⟨trivial, rfl⟩
  | _ => cases hplace

theorem quotedFrom_blank {c : Char} (hc : isBlank c = true) :
    quotedFrom mark least place done column (c :: rest) =
      quotedFrom mark least (place.blank c) done (column + 1) rest := by
  cases place with
  | plain => simp [quotedFrom, hc]
  | blanks bs => simp [quotedFrom, hc]
  | _ => cases hplace

theorem quotedFrom_kept {c : Char} (hblank : isBlank c = false) (hmark : c ≠ mark) (hend : c ≠ '\n')
    (hplain : c = '\\' → mark ≠ '"') :
    quotedFrom mark least place done column (c :: rest) =
      quotedFrom mark least .plain (c :: place.settle done) (column + 1) rest := by
  cases place with
  | plain => simpa [quotedFrom, hblank, hmark, hend, Place.admits] using fun hc hq => absurd hq (hplain hc)
  | blanks bs => simpa [quotedFrom, hblank, hmark, hend, Place.admits] using fun hc hq => absurd hq (hplain hc)
  | _ => cases hplace

theorem quotedFrom_doubled (hmark : mark = '\'') :
    quotedFrom mark least place done column ('\'' :: '\'' :: rest) =
      quotedFrom mark least .plain ('\'' :: place.settle done) (column + 2) rest := by
  subst hmark
  cases place with
  | plain => simp [quotedFrom, isBlank, Place.admits]
  | blanks bs => simp [quotedFrom, isBlank, Place.admits]
  | _ => cases hplace

theorem quotedFrom_backslash (hmark : mark = '"') :
    quotedFrom mark least place done column ('\\' :: rest) =
      quotedFrom mark least .escape (place.settle done) (column + 1) rest := by
  subst hmark
  cases place with
  | plain => simp [quotedFrom, isBlank, Place.admits]
  | blanks bs => simp [quotedFrom, isBlank, Place.admits]
  | _ => cases hplace

theorem quotedFrom_end (hmark : mark = '"' ∨ mark = '\'') (hrest : rest.head? ≠ some '\'') :
    quotedFrom mark least place done column (mark :: rest) =
      some (String.ofList (place.settle done).reverse, ⟨column + 1, rest⟩) := by
  rcases hmark with rfl | rfl
  · cases place with
    | plain => simp [quotedFrom, isBlank, Place.admits]
    | blanks bs => simp [quotedFrom, isBlank, Place.admits]
    | _ => cases hplace
  · -- a single mark would be doubled by another
    have hnext : ∀ cs, rest ≠ '\'' :: cs := by
      rintro cs rfl
      exact hrest rfl
    cases place with
    | plain => simp [quotedFrom, isBlank, Place.admits, hnext]
    | blanks bs => simp [quotedFrom, isBlank, Place.admits, hnext]
    | _ => cases hplace

end Steps

theorem quotedFrom_escaped {mark : Char} {least : Nat} {done rest : List Char} {column : Nat} {c d : Char}
    (h : escape? c = some (.inl d)) :
    quotedFrom mark least .escape done column (c :: rest) =
      quotedFrom mark least .plain (d :: done) (column + 1) rest := by
  have hend : c ≠ '\n' := by
    rintro rfl
    cases h
  simp [quotedFrom, hend, h]

theorem quotedFrom_code {mark : Char} {least : Nat} {done rest : List Char} {column : Nat} {c : Char} {digits : Nat}
    (h : escape? c = some (.inr digits)) :
    quotedFrom mark least .escape done column (c :: rest) =
      quotedFrom mark least (.code digits 0) done (column + 1) rest := by
  have hend : c ≠ '\n' := by
    rintro rfl
    cases h
  simp [quotedFrom, hend, h]

theorem escape?_ne_zero (c : Char) : escape? c ≠ some (.inr 0) := by
  unfold escape?
  split <;> simp

/-- The digits of a code come to its character. The induction is on the digits that are left. -/
theorem quotedFrom_digits {mark : Char} {least : Nat} {done rest : List Char} {column : Nat} (read : List Char)
    {d : Char} {digits : List Char} (hdigits : ∀ c ∈ d :: digits, Hex.IsDigit c)
    (hvalid : (Hex.value (read ++ d :: digits)).isValidChar) :
    quotedFrom mark least (.code (d :: digits).length (Hex.value read)) done column (d :: digits ++ rest) =
      quotedFrom mark least .plain (Char.ofNat (Hex.value (read ++ d :: digits)) :: done)
        (column + (d :: digits).length) rest := by
  induction digits generalizing read d column with
  | nil =>
    obtain ⟨n, -, hn, -⟩ := (hdigits d (.head _)).exists_value
    rw [Hex.value_concat, hn, Option.getD_some] at hvalid ⊢
    simp [quotedFrom, hn, hvalid]
  | cons e digits ih =>
    obtain ⟨hd, hrest⟩ := List.forall_mem_cons.mp hdigits
    obtain ⟨n, -, hn, -⟩ := hd.exists_value
    have hread : Hex.value (read ++ [d]) = 16 * Hex.value read + n := by rw [Hex.value_concat, hn, Option.getD_some]
    have hsplit : read ++ d :: e :: digits = read ++ [d] ++ e :: digits := by simp
    have hnext : quotedFrom mark least (.code (e :: digits).length (Hex.value (read ++ [d]))) done (column + 1)
        (e :: digits ++ rest) =
          quotedFrom mark least .plain (Char.ofNat (Hex.value (read ++ [d] ++ e :: digits)) :: done)
            (column + 1 + (e :: digits).length) rest := ih (read ++ [d]) hrest (hsplit ▸ hvalid)
    rw [hread] at hnext
    have hlength : column + (d :: e :: digits).length = column + 1 + (e :: digits).length := by
      rw [List.length_cons, Nat.add_right_comm, Nat.add_assoc]
    rw [hsplit, hlength, ← hnext, List.cons_append, quotedFrom]
    simp only [hn]
    exact if_pos (by simp)

/-- What stands between two marks is read as its text. -/
theorem quotedFrom_quotes {mark : Char} (hmark : mark = '"' ∨ mark = '\'') (least : Nat) {cs ds rest : List Char}
    (h : Quotes mark cs ds) (hrest : rest.head? ≠ some '\'') {place : Place} (hplace : place.Within)
    (done : List Char) (column : Nat) :
    ∃ column', quotedFrom mark least place done column (cs ++ mark :: rest) =
      some (String.ofList ((place.settle done).reverse ++ ds), ⟨column', rest⟩) := by
  have hplain : Place.plain.Within := trivial
  induction h generalizing place done column with
  | nil => exact ⟨column + 1, by rw [List.nil_append, quotedFrom_end hplace hmark hrest, List.append_nil]⟩
  | @kept c cs ds hne hend hslash _ ih =>
    rw [List.cons_append]
    by_cases hblank : isBlank c = true
    · obtain ⟨hwithin, hsettle⟩ := hplace.blank done c
      rw [quotedFrom_blank hplace hblank]
      simpa [hsettle] using ih hwithin done (column + 1)
    · rw [quotedFrom_kept hplace (Bool.not_eq_true _ ▸ hblank) hne hend hslash]
      simpa [Place.settle] using ih hplain (c :: place.settle done) (column + 1)
  | doubled hsingle _ ih =>
    rw [List.cons_append, List.cons_append, quotedFrom_doubled hplace hsingle]
    simpa [Place.settle] using ih hplain ('\'' :: place.settle done) (column + 2)
  | @escaped c d cs ds hdouble hc _ ih =>
    rw [List.cons_append, List.cons_append, quotedFrom_backslash hplace hdouble, quotedFrom_escaped hc]
    simpa [Place.settle] using ih hplain (d :: place.settle done) (column + 1 + 1)
  | @coded c digits cs ds hdouble hc hdigits hvalid _ ih =>
    obtain ⟨d, digits, rfl⟩ : ∃ d tail, digits = d :: tail := by
      cases digits with
      | nil => exact absurd hc (escape?_ne_zero c)
      | cons d tail => exact ⟨d, tail, rfl⟩
    rw [List.cons_append, List.cons_append, List.append_assoc, quotedFrom_backslash hplace hdouble, quotedFrom_code hc]
    have hcode : quotedFrom mark least (.code (d :: digits).length (Hex.value [])) (place.settle done) (column + 1 + 1)
        (d :: digits ++ (cs ++ mark :: rest)) = quotedFrom mark least .plain
          (Char.ofNat (Hex.value (d :: digits)) :: place.settle done) (column + 1 + 1 + (d :: digits).length)
          (cs ++ mark :: rest) := quotedFrom_digits [] hdigits hvalid
    have hnil : Hex.value [] = 0 := rfl
    rw [← hnil, hcode]
    simpa [Place.settle] using ih hplain (Char.ofNat (Hex.value (d :: digits)) :: place.settle done) _

/-- A text between quotes is that text and nothing else. -/
theorem spells_quoted {mark : Char} (hmark : mark = '"' ∨ mark = '\'') {cs : List Char} {s : String}
    (h : Quotes mark cs s.toList) (hordinary : ∀ c ∈ cs, isOrdinary c = true) :
    Spells (mark :: (cs ++ [mark])) (some (.text s)) := by
  refine ⟨?_, .quoted s, .scalar (.text s), ⟨⟨mark, _, rfl, ?_⟩, fun least column _ => ?_⟩, fun _ => rfl, rfl⟩
  · have hself : isOrdinary mark = true := by rcases hmark with rfl | rfl <;> rfl
    simpa [hself, or_imp, forall_and] using hordinary
  · rcases hmark with rfl | rfl <;> decide
  · have hplain : Place.plain.Within := trivial
    have hnext : ['\n'].head? ≠ some '\'' := by simp
    obtain ⟨column', hread⟩ := quotedFrom_quotes hmark least h hnext hplain [] (column + 1)
    have hquoted : quoted mark least ⟨column + 1, cs ++ [mark, '\n']⟩ = some (s, ⟨column', ['\n']⟩) := by
      rw [quoted]
      exact hread.trans (by simp [Place.settle])
    have hdone : lineDone ⟨column', ['\n']⟩ = true := rfl
    refine ⟨column', ?_⟩
    rcases hmark with rfl | rfl <;> simp [onLine, inline, Cursor.next, hquoted, hdone]

end EventIntake.Config.Yaml
