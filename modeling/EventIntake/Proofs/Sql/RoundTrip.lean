import EventIntake.Proofs.Sql.Statement

/-! The text of an insertion is read as the insertion. -/
namespace EventIntake.Sql.Reading
open Decimal

/-! ### Lists -/

/-- No token of a part ends it. -/
def Plain (part : List Token) : Prop := comma ∉ part ∧ .symbol ')' ∉ part

theorem mem_listed {parts : List (List Token)} {t : Token} (h : t ∈ listed parts) :
    t = comma ∨ ∃ part ∈ parts, t ∈ part := by
  induction parts with
  | nil => cases h
  | cons part rest ih =>
    cases rest with
    | nil => exact .inr ⟨part, List.mem_singleton_self _, by simpa [listed] using h⟩
    | cons next rest =>
      rw [listed, List.intercalate_cons_cons, List.mem_append, List.mem_append] at h
      rcases h with (h | h) | h
      · exact .inr ⟨part, List.mem_cons_self, h⟩
      · exact .inl (List.mem_singleton.mp h)
      · rcases ih h with rfl | ⟨p, hp, ht⟩
        · exact .inl rfl
        · exact .inr ⟨p, List.mem_cons_of_mem _ hp, ht⟩

theorem splitOn_listed {parts : List (List Token)} (hne : parts ≠ []) (h : ∀ part ∈ parts, comma ∉ part) :
    (listed parts).splitOn comma = parts :=
  List.splitOn_intercalate comma h hne

theorem bracketed?_bracketed {parts : List (List Token)} (hne : parts ≠ [])
    (h : ∀ part ∈ parts, Plain part) (later : List Token) :
    bracketed? (bracketed parts ++ later) = some (parts, later) := by
  have hopen : ∀ t ∈ listed parts, decide (t ≠ .symbol ')') = true := by
    intro t ht
    rcases mem_listed ht with rfl | ⟨part, hpart, ht⟩
    · decide
    · exact decide_eq_true fun he => (h part hpart).2 (he ▸ ht)
  simp only [bracketed, List.cons_append, List.append_assoc, bracketed?,
    List.dropWhile_append_of_pos hopen, List.takeWhile_append_of_pos hopen]
  simp [splitOn_listed hne fun part hpart => (h part hpart).1]

theorem mapM_map {α β : Type} {l : List α} {f : α → β} {g : β → Option α}
    (h : ∀ x ∈ l, g (f x) = some x) : (l.map f).mapM g = some l := by
  induction l with
  | nil => rfl
  | cons x rest ih =>
    obtain ⟨hx, hrest⟩ := List.forall_mem_cons.mp h
    rw [List.map_cons, List.mapM_cons, hx, ih hrest]
    rfl

theorem names?_names {cs : List String} (hne : cs ≠ []) (later : List Token) :
    names? (bracketed (cs.map nameTokens) ++ later) = some (cs, later) := by
  have hplain : ∀ part ∈ cs.map nameTokens, Plain part := by
    intro part hpart
    obtain ⟨c, _, rfl⟩ := List.mem_map.mp hpart
    simp [Plain, nameTokens, comma]
  have hread : (cs.map nameTokens).mapM name? = some cs := mapM_map fun _ _ => rfl
  rw [names?, bracketed?_bracketed (by simpa using hne) hplain]
  simp [hread]

/-! ### Values -/

theorem fitInt64?_toInt (n : Int64) : fitInt64? n.toInt = some n := by
  rw [fitInt64?, if_pos ⟨n.le_toInt, n.toInt_le⟩, Int64.ofInt_toInt]

theorem number?_eq (n : Int64) :
    number? (decide (n.toInt < 0)) (toString n.toInt.natAbs) = some (.int n) := by
  have hsigned : signed (decide (n.toInt < 0)) n.toInt.natAbs = n.toInt := by
    by_cases h : n.toInt < 0
    · rw [signed, if_pos (decide_eq_true h)]
      omega
    · rw [signed, if_neg (by simp [h])]
      omega
  rw [number?, if_pos (isDigit_toString _), natOf_toString, hsigned, fitInt64?_toInt]
  rfl

theorem cell?_cellTokens (v : Cell) : cell? (cellTokens v) = some v := by
  cases v with
  | int n =>
    have hnull : toString n.toInt.natAbs ≠ "NULL" := by
      intro he
      have hdigits := isDigit_toString n.toInt.natAbs
      rw [he] at hdigits
      exact absurd hdigits (by decide)
    have h := number?_eq n
    by_cases hn : n.toInt < 0
    · simpa only [cellTokens, cell?, hn, if_true, decide_true] using h
    · simpa only [cellTokens, cell?, hn, hnull, if_false, decide_false] using h
  | text s => rfl
  | null => rfl

theorem plain_cellTokens (v : Cell) : Plain (cellTokens v) := by
  cases v with
  | int n => simp only [cellTokens]; split <;> simp [Plain, comma]
  | _ => simp [Plain, cellTokens, comma]

theorem bracketed?_rowTokens {row : List Cell} (hne : row ≠ []) (later : List Token) :
    bracketed? (rowTokens row ++ later) = some (row.map cellTokens, later) :=
  bracketed?_bracketed (by simpa using hne)
    (fun part hpart => by
      obtain ⟨v, _, rfl⟩ := List.mem_map.mp hpart
      exact plain_cellTokens v) later

theorem mapM_cellTokens (row : List Cell) : (row.map cellTokens).mapM cell? = some row :=
  mapM_map fun v _ => cell?_cellTokens v

theorem rows?_last {ts later : List Token} {parts : List (List Token)}
    (h : bracketed? ts = some (parts, later)) (hlater : ∀ more, later ≠ comma :: more) :
    rows? ts = (do some ([← parts.mapM cell?], later)) := by
  rw [rows?]
  split <;> rename_i heq <;> rw [h] at heq
  · cases heq
  · cases heq
    exact absurd rfl (hlater _)
  · cases heq
    rfl

theorem rows?_more {ts more : List Token} {parts : List (List Token)}
    (h : bracketed? ts = some (parts, comma :: more)) :
    rows? ts = (do
      let row ← parts.mapM cell?
      let (rows, later) ← rows? more
      some (row :: rows, later)) := by
  rw [rows?]
  split <;> simp_all [comma]

theorem rows?_rows {rows : List (List Cell)} (hne : rows ≠ []) (h : ∀ row ∈ rows, row ≠ [])
    {later : List Token} (hlater : ∀ more, later ≠ comma :: more) :
    rows? (listed (rows.map rowTokens) ++ later) = some (rows, later) := by
  induction rows with
  | nil => exact absurd rfl hne
  | cons row rest ih =>
    obtain ⟨hrow, hrest⟩ := List.forall_mem_cons.mp h
    cases rest with
    | nil =>
      have hlisted : listed ([row].map rowTokens) = rowTokens row := by simp [listed]
      rw [hlisted, rows?_last (bracketed?_rowTokens hrow later) hlater, mapM_cellTokens]
      rfl
    | cons next rest =>
      have hlisted : listed ((row :: next :: rest).map rowTokens) ++ later =
          rowTokens row ++ (comma :: (listed ((next :: rest).map rowTokens) ++ later)) := by
        simp [listed, List.intercalate_cons_cons]
      rw [hlisted, rows?_more (bracketed?_rowTokens hrow _), mapM_cellTokens,
        ih (List.cons_ne_nil _ _) hrest]
      rfl

/-! ### Statements -/

theorem action?_actionTokens (overwritten : List String) :
    action? (actionTokens overwritten) = some overwritten := by
  rw [actionTokens]
  split
  · rename_i h
    rw [List.isEmpty_iff.mp h]
    rfl
  · rename_i h
    have hsplit : (listed (overwritten.map assignmentTokens)).splitOn comma =
        overwritten.map assignmentTokens := by
      refine splitOn_listed (by simpa using h) fun part hpart => ?_
      obtain ⟨c, _, rfl⟩ := List.mem_map.mp hpart
      simp [assignmentTokens, comma]
    have hread : (overwritten.map assignmentTokens).mapM assignment? = some overwritten :=
      mapM_map fun c _ => by simp [assignmentTokens, assignment?]
    simp [action?, hsplit, hread]

theorem target?_targetTokens (keys overwritten : List String) :
    target? (targetTokens keys ++ actionTokens overwritten) = some (keys, actionTokens overwritten) := by
  rw [targetTokens]
  split
  · rename_i h
    rw [List.isEmpty_iff.mp h, actionTokens]
    split <;> rfl
  · rename_i h
    exact names?_names (by simpa using h) _

theorem clauses?_insertTokens {s : Insert} (hcolumns : s.columns ≠ []) (hrows : s.rows ≠ [])
    (h : ∀ row ∈ s.rows, row ≠ []) : clauses? (insertTokens s) = some s.clauses := by
  have hvalues : rows? (listed (s.rows.map rowTokens) ++
      (.word "ON" :: .word "CONFLICT" :: (targetTokens s.keys ++ actionTokens s.overwritten))) =
        some (s.rows, _) :=
    rows?_rows hrows h (by simp [comma])
  simp only [insertTokens, nameTokens, List.cons_append, List.nil_append, List.append_assoc, clauses?,
    names?_names hcolumns]
  simp [hvalues, target?_targetTokens, action?_actionTokens, Insert.clauses]

/-- A statement is read as it was meant, whatever its names and texts hold; or its text is refused for a
NUL. -/
theorem read_insert {s : Insert} (hcolumns : s.columns ≠ []) (hrows : s.rows ≠ [])
    (h : ∀ row ∈ s.rows, row ≠ []) :
    read (Render.insert .sqlite s) = match Database.textFault? s with
      | some fault => .error fault
      | none => .ok (some s.clauses) := by
  have hvalues : s.rows.all List.isEmpty = false := by
    obtain ⟨row, hrow⟩ := List.exists_mem_of_ne_nil _ hrows
    exact List.all_eq_false.mpr ⟨row, hrow, by simpa using h row hrow⟩
  have htokens := (reads_insert hvalues).tokens_eq
  rw [checked_insertTokens hcolumns] at htokens
  rw [read, htokens]
  cases Database.textFault? s with
  | some fault => rfl
  | none => exact congrArg Except.ok (clauses?_insertTokens hcolumns hrows h)

end EventIntake.Sql.Reading
