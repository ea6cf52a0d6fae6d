import EventIntake.Sql.Insert

/-! When a record is one statement, and which. -/
namespace EventIntake

/-- The row with its columns in the order of their names. -/
def Row.sorted (row : Row) : Row := ⟨row.table, Sql.sortByName row.keys, Sql.sortByName row.data⟩

namespace Sql

theorem perm_insertByName (c : String × Cell) (cs : Columns) : (insertByName c cs).Perm (c :: cs) := by
  induction cs with
  | nil => exact .refl _
  | cons d rest ih =>
    simp only [insertByName]
    split
    · exact .refl _
    · exact (ih.cons d).trans (.swap c d rest)

theorem perm_sortByName (cs : Columns) : (sortByName cs).Perm cs := by
  induction cs with
  | nil => exact .refl _
  | cons c rest ih => exact (perm_insertByName c _).trans (ih.cons c)

theorem zip_names_cells (cs : Columns) : (names cs).zip (cells cs) = sortByName cs := by
  simp [names, cells, List.zip_map']

@[simp] theorem length_names (cs : Columns) : (names cs).length = cs.length := by
  simp [names, (perm_sortByName cs).length_eq]

@[simp] theorem length_cells (cs : Columns) : (cells cs).length = cs.length := by
  simp [cells, (perm_sortByName cs).length_eq]

theorem names_ne_nil {cs : Columns} (h : cs ≠ []) : names cs ≠ [] := fun hnil =>
  h (List.eq_nil_of_length_eq_zero (by rw [← length_names, hnil, List.length_nil]))

theorem cells_ne_nil {cs : Columns} (h : cs ≠ []) : cells cs ≠ [] := fun hnil =>
  h (List.eq_nil_of_length_eq_zero (by rw [← length_cells, hnil, List.length_nil]))

theorem mem_names {cs : Columns} {name : String} : name ∈ names cs ↔ name ∈ cs.map Prod.fst :=
  ((perm_sortByName cs).map Prod.fst).mem_iff

namespace Insert

/-- Whether a row is of the table and has the columns of the first row of its record. -/
def fits (first row : Row) : Bool :=
  row.table = first.table ∧ names row.keys = names first.keys ∧ names row.data = names first.data

/-- The first row of a record that does not fit. -/
def mixed? : Record → Option MixedCollection
  | [] => none
  | first :: rest => ((first :: rest).findIdx? fun row => !fits first row).map fun i => ⟨first.table, i⟩

private theorem rowsFrom_eq (first : Row) (index : Nat) (record : Record) :
    rowsFrom first.table (names first.keys) (names first.data) index record =
      match record.findIdx? fun row => !fits first row with
      | some i => .error ⟨first.table, index + i⟩
      | none => .ok (record.map fun row => cells row.keys ++ cells row.data) := by
  induction record generalizing index with
  | nil => rfl
  | cons row rest ih =>
    simp only [rowsFrom, List.findIdx?_cons]
    by_cases h : row.table = first.table ∧ names row.keys = names first.keys ∧
        names row.data = names first.data
    · have hf : (!fits first row) = false := by simp [fits, h]
      rw [if_pos h, hf, ih (index + 1)]
      cases rest.findIdx? fun row => !fits first row with
      | none => rfl
      | some i =>
        simp only [Bool.false_eq_true, if_false, Option.map_some, bind, Except.bind]
        rw [Nat.add_right_comm, Nat.add_assoc]
    · have hf : (!fits first row) = true := by simp [fits, h]
      rw [if_neg h, hf]
      rfl

/-- A record is refused for its first row that does not fit. Else its statement inserts the rows in
order, each with the values of its columns in the order of their names. -/
theorem ofRecord_eq (mode : ConflictMode) (record : Record) :
    ofRecord mode record = match mixed? record with
      | some e => .error e
      | none => .ok (record.head?.map fun first =>
          ⟨first.table, names first.keys, names first.data,
            record.map fun row => cells row.keys ++ cells row.data, mode⟩) := by
  cases record with
  | nil => rfl
  | cons first rest =>
    simp only [ofRecord, mixed?, rowsFrom_eq, bind, Except.bind]
    cases (first :: rest).findIdx? fun row => !fits first row with
    | none => rfl
    | some i =>
      simp only [Option.map_some, Nat.zero_add]

/-- The rows of a statement match its table and columns. -/
theorem of_ofRecord_eq {mode : ConflictMode} {record : Record} {s : Insert}
    (h : ofRecord mode record = .ok (some s)) :
    s.rows = record.map (fun row => cells row.keys ++ cells row.data) ∧ s.mode = mode ∧ record ≠ [] ∧
      ∀ row ∈ record, row.table = s.table ∧ names row.keys = s.keys ∧ names row.data = s.data := by
  cases record with
  | nil => cases h
  | cons first rest =>
    rw [ofRecord_eq] at h
    cases hm : mixed? (first :: rest) with
    | some e => simp [hm] at h
    | none =>
      rw [hm] at h
      cases h
      refine ⟨rfl, rfl, List.cons_ne_nil _ _, fun row hrow => ?_⟩
      have hfits := List.findIdx?_eq_none_iff.mp (Option.map_eq_none_iff.mp hm) row hrow
      simpa [fits] using hfits

/-- The row that values make under the columns of a statement. -/
def row (s : Insert) (vs : List Cell) : Row := ⟨s.table, s.keys.zip vs, s.data.zip (vs.drop s.keys.length)⟩

/-- The values of a row that matches a statement stand under their columns. -/
theorem row_values {s : Insert} {r : Row}
    (h : r.table = s.table ∧ names r.keys = s.keys ∧ names r.data = s.data) :
    s.row (cells r.keys ++ cells r.data) = r.sorted := by
  obtain ⟨htable, hkeys, hdata⟩ := h
  have hlength : (names r.keys).length = (cells r.keys).length := by simp
  have hzip : (names r.keys).zip (cells r.keys ++ cells r.data) = (names r.keys).zip (cells r.keys) := by
    have happend : (names r.keys ++ []).zip (cells r.keys ++ cells r.data) = _ := List.zip_append hlength
    simpa using happend
  rw [row, ← htable, ← hkeys, ← hdata, hzip, hlength, List.drop_left, zip_names_cells, zip_names_cells]
  rfl

/-- A statement holds the rows of its record. -/
theorem map_row_of_ofRecord {mode : ConflictMode} {record : Record} {s : Insert}
    (h : ofRecord mode record = .ok (some s)) : s.rows.map s.row = record.map Row.sorted := by
  obtain ⟨hrows, -, -, hfit⟩ := of_ofRecord_eq h
  rw [hrows, List.map_map]
  exact List.map_congr_left fun r hr => row_values (hfit r hr)

end Insert

end Sql

end EventIntake
