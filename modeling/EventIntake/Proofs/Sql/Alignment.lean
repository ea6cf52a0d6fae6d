import EventIntake.Proofs.Sql.Quoting
import Mathlib.Data.List.Nodup

/-! The values of a statement stand under their columns, in whatever order the columns of each row were given. -/
namespace EventIntake

/-! ### Columns in the order of their names -/

namespace Sql

theorem ascending_insertByName (c : String × Cell) {cs : Columns} (h : cs.Pairwise fun a b => a.1 ≤ b.1) :
    (insertByName c cs).Pairwise fun a b => a.1 ≤ b.1 := by
  induction cs with
  | nil => exact List.pairwise_singleton _ _
  | cons d rest ih =>
    obtain ⟨hd, hrest⟩ := List.pairwise_cons.mp h
    simp only [insertByName]
    split
    · rename_i hcd
      refine List.pairwise_cons.mpr ⟨fun e he => ?_, h⟩
      rcases List.mem_cons.mp he with rfl | he
      · exact hcd
      · exact Std.le_trans hcd (hd e he)
    · rename_i hcd
      refine List.pairwise_cons.mpr ⟨fun e he => ?_, ih hrest⟩
      rcases List.mem_cons.mp ((perm_insertByName c rest).mem_iff.mp he) with rfl | he
      · exact Std.le_of_not_ge hcd
      · exact hd e he

theorem ascending_sortByName (cs : Columns) : (sortByName cs).Pairwise fun a b => a.1 ≤ b.1 := by
  induction cs with
  | nil => exact .nil
  | cons c rest ih => exact ascending_insertByName c ih

theorem ascending_names (cs : Columns) : (names cs).Pairwise (· ≤ ·) :=
  List.pairwise_map.mpr (ascending_sortByName cs)

theorem sortByName_of_ascending {cs : Columns} (h : cs.Pairwise fun a b => a.1 ≤ b.1) : sortByName cs = cs := by
  induction cs with
  | nil => rfl
  | cons c rest ih =>
    obtain ⟨hc, hrest⟩ := List.pairwise_cons.mp h
    rw [sortByName, ih hrest]
    cases rest with
    | nil => rfl
    | cons d rest => rw [insertByName, if_pos (hc d List.mem_cons_self)]

theorem names_sortByName (cs : Columns) : names (sortByName cs) = names cs := by
  rw [names, sortByName_of_ascending (ascending_sortByName cs), names]

theorem cells_sortByName (cs : Columns) : cells (sortByName cs) = cells cs := by
  rw [cells, sortByName_of_ascending (ascending_sortByName cs), cells]

theorem filter_insertByName (c : String × Cell) (cs : Columns) (name : String) :
    (insertByName c cs).filter (fun x => x.1 = name) = (c :: cs).filter fun x => x.1 = name := by
  induction cs with
  | nil => rfl
  | cons d rest ih =>
    simp only [insertByName]
    split
    · rfl
    · rename_i hcd
      -- Only a greater name than that of `d` comes behind it, so at most one of both is kept.
      have hne : c.1 ≠ d.1 := fun he => hcd (he ▸ Std.le_refl _)
      rw [List.filter_cons, ih]
      by_cases hd : d.1 = name
      · have hc : c.1 ≠ name := fun hc => hne (hc.trans hd.symm)
        simp [hd, hc]
      · simp [List.filter_cons, hd]

/-- Columns of the same name keep their order. -/
theorem filter_sortByName (cs : Columns) (name : String) :
    (sortByName cs).filter (fun x => x.1 = name) = cs.filter fun x => x.1 = name := by
  induction cs with
  | nil => rfl
  | cons c rest ih => rw [sortByName, filter_insertByName, List.filter_cons, List.filter_cons, ih]

theorem names_eq_iff {cs cs' : Columns} :
    names cs = names cs' ↔ (cs.map Prod.fst).Perm (cs'.map Prod.fst) := by
  have hnames (cs : Columns) : (names cs).Perm (cs.map Prod.fst) := (perm_sortByName cs).map Prod.fst
  constructor
  · intro h
    exact ((hnames cs).symm.trans (h ▸ .refl _)).trans (hnames cs')
  · intro h
    have hperm := ((hnames cs).trans h).trans (hnames cs').symm
    exact hperm.eq_of_pairwise (fun _ _ _ _ hab hba => Std.le_antisymm hab hba)
      (ascending_names cs) (ascending_names cs')

/-- Where no name is repeated, any order of the columns will do. -/
theorem sortByName_of_nodup {cs cs' : Columns} (h : cs.Perm cs') (hd : (cs.map Prod.fst).Nodup) :
    sortByName cs = sortByName cs' := by
  have hperm := ((perm_sortByName cs).trans h).trans (perm_sortByName cs').symm
  refine hperm.eq_of_pairwise (fun a b ha hb hab hba => ?_) (ascending_sortByName cs) (ascending_sortByName cs')
  have ha := (perm_sortByName cs).mem_iff.mp ha
  have hb := h.mem_iff.mpr ((perm_sortByName cs').mem_iff.mp hb)
  exact List.inj_on_of_nodup_map hd ha hb (Std.le_antisymm hab hba)

end Sql

/-! ### Rows -/

namespace Row

/-- Rows that one statement can insert: of the same table, with the same names of columns, each as often. -/
def Alike (a b : Row) : Prop :=
  a.table = b.table ∧ (a.keys.map Prod.fst).Perm (b.keys.map Prod.fst) ∧
    (a.data.map Prod.fst).Perm (b.data.map Prod.fst)

instance (a b : Row) : Decidable (a.Alike b) :=
  inferInstanceAs (Decidable (_ ∧ _ ∧ _))

/-- The same columns, in another order only if no name is repeated. -/
def SameColumns (cs cs' : Columns) : Prop := cs = cs' ∨ cs.Perm cs' ∧ (cs.map Prod.fst).Nodup

/-- The same row, but for the order of its key columns and of its data columns. -/
def Reordered (a b : Row) : Prop := a.table = b.table ∧ SameColumns a.keys b.keys ∧ SameColumns a.data b.data

theorem SameColumns.sortByName {cs cs' : Columns} (h : SameColumns cs cs') :
    Sql.sortByName cs = Sql.sortByName cs' := by
  rcases h with rfl | ⟨hperm, hd⟩
  · rfl
  · exact Sql.sortByName_of_nodup hperm hd

theorem Reordered.sorted {a b : Row} (h : a.Reordered b) : a.sorted = b.sorted := by
  obtain ⟨htable, hkeys, hdata⟩ := h
  rw [Row.sorted, Row.sorted, htable, hkeys.sortByName, hdata.sortByName]

end Row

namespace Sql.Insert

theorem fits_iff_alike (first row : Row) : fits first row = true ↔ first.Alike row := by
  simp only [fits, Row.Alike, decide_eq_true_eq, names_eq_iff]
  constructor
  · rintro ⟨htable, hkeys, hdata⟩
    exact ⟨htable.symm, hkeys.symm, hdata.symm⟩
  · rintro ⟨htable, hkeys, hdata⟩
    exact ⟨htable.symm, hkeys.symm, hdata.symm⟩

/-- A record is refused for its first row that is not like the first of all. -/
theorem ofRecord_eq_error_iff {mode : ConflictMode} {first : Row} {rest : Record} {e : MixedCollection} :
    ofRecord mode (first :: rest) = .error e ↔
      e.table = first.table ∧ ∃ row, (first :: rest)[e.index]? = some row ∧ ¬ first.Alike row ∧
        ∀ i < e.index, ∀ r ∈ (first :: rest)[i]?, first.Alike r := by
  have hmixed : ofRecord mode (first :: rest) = .error e ↔ mixed? (first :: rest) = some e := by
    rw [ofRecord_eq]
    cases mixed? (first :: rest) <;> simp
  have hunlike (row : Row) : (!fits first row) = true ↔ ¬ first.Alike row := by
    rw [Bool.not_eq_true', ← Bool.not_eq_true, fits_iff_alike]
  rw [hmixed, mixed?, Option.map_eq_some_iff]
  constructor
  · rintro ⟨i, hi, rfl⟩
    obtain ⟨hlt, hrow, hbefore⟩ := List.findIdx?_eq_some_iff_getElem.mp hi
    refine ⟨rfl, _, List.getElem?_eq_getElem hlt, (hunlike _).mp hrow, fun j hj r hr => ?_⟩
    obtain ⟨hj', rfl⟩ := List.getElem?_eq_some_iff.mp hr
    exact not_not.mp (mt (hunlike _).mpr (hbefore j hj))
  · rintro ⟨htable, row, hrow, hne, hbefore⟩
    obtain ⟨hlt, rfl⟩ := List.getElem?_eq_some_iff.mp hrow
    refine ⟨e.index, List.findIdx?_eq_some_iff_getElem.mpr ⟨hlt, (hunlike _).mpr hne, fun j hj => ?_⟩, ?_⟩
    · exact mt (hunlike _).mp (not_not.mpr (hbefore j hj _ (List.getElem?_eq_getElem (Nat.lt_trans hj hlt))))
    · rw [← htable]

/-- Else there is a statement. -/
theorem exists_ofRecord {mode : ConflictMode} {first : Row} {rest : Record}
    (h : ∀ row ∈ first :: rest, first.Alike row) :
    ofRecord mode (first :: rest) = .ok (some
      ⟨first.table, names first.keys, names first.data,
        (first :: rest).map fun row => cells row.keys ++ cells row.data, mode⟩) := by
  have hnone : mixed? (first :: rest) = none := by
    rw [mixed?, Option.map_eq_none_iff, List.findIdx?_eq_none_iff]
    intro row hrow
    rw [Bool.not_eq_false', fits_iff_alike]
    exact h row hrow
  rw [ofRecord_eq, hnone]
  rfl

/-! ### The order of columns -/

theorem rowsFrom_sorted (table : String) (keys data : List String) (index : Nat) (record : Record) :
    rowsFrom table keys data index (record.map Row.sorted) = rowsFrom table keys data index record := by
  induction record generalizing index with
  | nil => rfl
  | cons r rest ih => simp only [List.map_cons, rowsFrom, Row.sorted, names_sortByName, cells_sortByName, ih]

theorem ofRecord_sorted (mode : ConflictMode) (record : Record) :
    ofRecord mode (record.map Row.sorted) = ofRecord mode record := by
  cases record with
  | nil => rfl
  | cons first rest =>
    have hrows := rowsFrom_sorted first.table (names first.keys) (names first.data) 0 (first :: rest)
    simp only [List.map_cons, ofRecord, Row.sorted, names_sortByName] at hrows ⊢
    rw [hrows]

/-- Columns may be given in any order. -/
theorem ofRecord_reordered (mode : ConflictMode) {record record' : Record}
    (h : List.Forall₂ Row.Reordered record record') : ofRecord mode record' = ofRecord mode record := by
  have hsorted : record.map Row.sorted = record'.map Row.sorted := by
    induction h with
    | nil => rfl
    | cons hr _ ih => rw [List.map_cons, List.map_cons, hr.sorted, ih]
  rw [← ofRecord_sorted, ← hsorted, ofRecord_sorted]

/-! ### One row after the other -/

/-- Why no statement was built: a row that does not match, or one with more or fewer values than there are columns. -/
inductive Refusal
  | mixed (e : MixedCollection)
  | count (columns values : Nat)
  deriving DecidableEq, Repr

/-- Adds the values of a row, one for each column. -/
def addValues (vs : List Cell) (s : Insert) : Except Refusal Insert :=
  if vs.length = s.columns.length then .ok { s with rows := s.rows ++ [vs] }
  else .error (.count s.columns.length vs.length)

/-- Adds the rows from place `index` on. -/
def addRows : Nat → Record → Insert → Except Refusal Insert
  | _, [], s => .ok s
  | index, r :: rest, s =>
    if r.table = s.table ∧ names r.keys = s.keys ∧ names r.data = s.data then do
      addRows (index + 1) rest (← addValues (cells r.keys ++ cells r.data) s)
    else .error (.mixed ⟨s.table, index⟩)

/-- Builds the statement of a record row by row; the values of each are counted. -/
def build (mode : ConflictMode) : Record → Except Refusal (Option Insert)
  | [] => .ok none
  | first :: rest =>
    some <$> addRows 0 (first :: rest) ⟨first.table, names first.keys, names first.data, [], mode⟩

theorem addRows_eq (index : Nat) (record : Record) (s : Insert) :
    addRows index record s =
      ((fun rows => { s with rows := s.rows ++ rows }) <$> rowsFrom s.table s.keys s.data index record).mapError
        .mixed := by
  induction record generalizing index s with
  | nil =>
    rw [rowsFrom]
    simp [addRows, Functor.map, Except.map, Except.mapError]
  | cons r rest ih =>
    simp only [addRows, rowsFrom]
    by_cases h : r.table = s.table ∧ names r.keys = s.keys ∧ names r.data = s.data
    · have hlength : (cells r.keys ++ cells r.data).length = s.columns.length := by
        rw [Insert.columns, ← h.2.1, ← h.2.2]
        simp
      rw [if_pos h, if_pos h, addValues, if_pos hlength]
      simp only [bind, Except.bind, ih]
      cases rowsFrom s.table s.keys s.data (index + 1) rest <;>
        simp [Functor.map, Except.map, Except.mapError]
    · rw [if_neg h, if_neg h]
      rfl

/-- No row is refused for the number of its values. -/
theorem build_eq (mode : ConflictMode) (record : Record) :
    build mode record = (ofRecord mode record).mapError .mixed := by
  cases record with
  | nil => rfl
  | cons first rest =>
    simp only [build, ofRecord, addRows_eq, bind, Except.bind]
    cases rowsFrom first.table (names first.keys) (names first.data) 0 (first :: rest) <;> rfl

/-! ### Values under their columns -/

/-- The values are those of the row, each under its column. Those of a repeated column are in the order they were
given. -/
structure Holds (s : Insert) (r : Row) (vs : List Cell) : Prop where
  length : vs.length = s.columns.length
  keys (name : String) : (s.row vs).keys.filter (fun x => x.1 = name) = r.keys.filter fun x => x.1 = name
  data (name : String) : (s.row vs).data.filter (fun x => x.1 = name) = r.data.filter fun x => x.1 = name

theorem holds_values {s : Insert} {r : Row}
    (h : r.table = s.table ∧ names r.keys = s.keys ∧ names r.data = s.data) :
    s.Holds r (cells r.keys ++ cells r.data) where
  length := by
    rw [Insert.columns, ← h.2.1, ← h.2.2]
    simp
  keys name := by
    rw [row_values h]
    exact filter_sortByName r.keys name
  data name := by
    rw [row_values h]
    exact filter_sortByName r.data name

/-- The statement of rows like the first: its columns in the order of their names, one row of values for each row in
order, and the conflict clause that is read from its text. Without columns there is nothing to overwrite. -/
structure Aligned (mode : ConflictMode) (first : Row) (record : Record) (s : Insert) : Prop where
  table : s.table = first.table
  keys_ascending : s.keys.Pairwise (· ≤ ·)
  keys_perm : s.keys.Perm (first.keys.map Prod.fst)
  data_ascending : s.data.Pairwise (· ≤ ·)
  data_perm : s.data.Perm (first.data.map Prod.fst)
  rows : List.Forall₂ s.Holds record s.rows
  text (d : Dialect) : s.columns ≠ [] → Quoting.read? d (Render.insert d s) = some
    { table := first.table
      columns := s.keys ++ s.data
      rows := s.rows
      target := s.keys
      overwritten := match mode with
        | .upsert => s.data
        | .ignore => [] }
  bare (d : Dialect) : s.columns = [] →
    Render.insert d s =
      String.ofList ("INSERT INTO ".toList ++ Render.name first.table ++ " () ON CONFLICT  DO NOTHING".toList)

theorem insert_of_columns_eq_nil (d : Dialect) {s : Insert} (hcolumns : s.columns = [])
    (hrows : ∀ vs ∈ s.rows, vs.length = s.columns.length) :
    Render.insert d s =
      String.ofList ("INSERT INTO ".toList ++ Render.name s.table ++ " () ON CONFLICT  DO NOTHING".toList) := by
  have hvalues : Render.values d s.rows = [] := by
    refine if_pos (List.all_eq_true.mpr fun vs hvs => ?_)
    rw [List.isEmpty_iff_length_eq_zero, hrows vs hvs, hcolumns, List.length_nil]
  obtain ⟨table, keys, data, rows, mode⟩ := s
  obtain ⟨rfl, rfl⟩ : keys = [] ∧ data = [] := List.append_eq_nil_iff.mp hcolumns
  have hlater : ' ' :: Render.bracketed [] ++ ([] ++ Render.onConflict ⟨table, [], [], rows, mode⟩) =
      " () ON CONFLICT  DO NOTHING".toList := by
    cases mode <;> rfl
  rw [← hlater, ← hvalues, ← List.append_assoc, ← List.append_assoc]
  rfl

theorem aligned_of_ofRecord {mode : ConflictMode} {first : Row} {rest : Record} {s : Insert}
    (h : ofRecord mode (first :: rest) = .ok (some s)) : Aligned mode first (first :: rest) s := by
  obtain ⟨hrows, hmode, -, hfit⟩ := of_ofRecord_eq h
  obtain ⟨htable, hkeys, hdata⟩ := hfit first List.mem_cons_self
  have hlength : ∀ vs ∈ s.rows, vs.length = s.columns.length := by
    intro vs hvs
    rw [hrows] at hvs
    obtain ⟨r, hr, rfl⟩ := List.mem_map.mp hvs
    exact (holds_values (hfit r hr)).length
  refine
    { table := htable.symm
      keys_ascending := hkeys ▸ ascending_names first.keys
      keys_perm := hkeys ▸ (perm_sortByName first.keys).map Prod.fst
      data_ascending := hdata ▸ ascending_names first.data
      data_perm := hdata ▸ (perm_sortByName first.data).map Prod.fst
      rows := ?_, text := fun d hcolumns => ?_
      bare := fun d hcolumns => htable ▸ insert_of_columns_eq_nil d hcolumns hlength }
  · rw [hrows, List.forall₂_map_right_iff, List.forall₂_same]
    exact fun r hr => holds_values (hfit r hr)
  · have hne : ∀ vs ∈ s.rows, vs ≠ [] := by
      intro vs hvs hnil
      have hzero := hlength vs hvs
      rw [hnil, List.length_nil] at hzero
      exact hcolumns (List.eq_nil_of_length_eq_zero hzero.symm)
    rw [Quoting.read?_insert d hcolumns (by simp [hrows]) hne, Insert.clauses, htable, ← hmode]
    rfl

/-- The statement of a record. No rows need none. A row that differs from the first in its table or in how often it has
a column refuses the record, and the first such row is named. Else each row has its values under the columns, which
are in the order of their names, whatever order they were given in. Rows are never short of values, and on a conflict
the data columns are overwritten or nothing is done. -/
theorem ofRecord_aligned (mode : ConflictMode) (record : Record) :
    build mode record = (ofRecord mode record).mapError .mixed ∧
      (record = [] → ofRecord mode record = .ok none) ∧
      (∀ first ∈ record.head?,
        (∀ e, ofRecord mode record = .error e ↔
          e.table = first.table ∧ ∃ row, record[e.index]? = some row ∧ ¬ first.Alike row ∧
            ∀ i < e.index, ∀ r ∈ record[i]?, first.Alike r) ∧
        ((∀ row ∈ record, first.Alike row) →
          ∃ s, ofRecord mode record = .ok (some s) ∧ Aligned mode first record s)) ∧
      ∀ record', List.Forall₂ Row.Reordered record record' → ofRecord mode record' = ofRecord mode record := by
  refine ⟨build_eq mode record, ?_, ?_, fun _ => ofRecord_reordered mode⟩
  · rintro rfl
    rfl
  · intro first hfirst
    obtain ⟨rest, rfl⟩ := List.head?_eq_some_iff.mp hfirst
    refine ⟨fun e => ofRecord_eq_error_iff, fun h => ?_⟩
    have hs : ofRecord mode (first :: rest) = _ := exists_ofRecord h
    exact ⟨_, hs, aligned_of_ofRecord hs⟩

/-- Two rows that give their keys in different orders and one column of data twice. -/
theorem repeated_column_aligned :
    let first : Row := ⟨"t", [("b", .int 1), ("a", .int 2)], [("x", .int 3), ("x", .int 4)]⟩
    let second : Row := ⟨"t", [("a", .int 5), ("b", .int 6)], [("x", .int 7), ("x", .null)]⟩
    (∀ row ∈ [first, second], first.Alike row) ∧
      ∃ s, ofRecord .upsert [first, second] = .ok (some s) ∧ Aligned .upsert first [first, second] s ∧
        s.rows = [[.int 2, .int 1, .int 3, .int 4], [.int 5, .int 6, .int 7, .null]] := by
  intro first second
  have halike : ∀ row ∈ [first, second], first.Alike row := by decide
  obtain ⟨s, hs, haligned⟩ := ((ofRecord_aligned .upsert [first, second]).2.2.1 first rfl).2 halike
  exact ⟨halike, s, hs, haligned, (of_ofRecord_eq hs).1⟩

end Sql.Insert

end EventIntake
