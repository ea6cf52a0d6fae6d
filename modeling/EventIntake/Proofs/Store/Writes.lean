import EventIntake.Proofs.Record
import EventIntake.Proofs.Sorted
import EventIntake.Proofs.Store.RowKey

/-! Rows written to a database one after the other, and which of them survive. -/
namespace EventIntake
open Event

/-- The key of a row of an event table. -/
def Row.key? (row : Row) : Option RowKey :=
  match row.keys with
  | [(_, digest), (_, seq)] => some ⟨digest, seq⟩
  | _ => none

/-- The values of the data columns. -/
def Row.values (row : Row) : List Cell := row.data.map Prod.snd

/-- The row is of the table of the category, under the key. -/
def Row.At (c : Category) (key : RowKey) (row : Row) : Prop :=
  row.table = Schema.tableName c ∧ row.key? = some key

instance (c : Category) (key : RowKey) : DecidablePred (Row.At c key) :=
  fun row => inferInstanceAs (Decidable (row.table = Schema.tableName c ∧ row.key? = some key))

namespace Database
open Sql

/-- Puts a row into its table. A present row of the key is replaced or kept. -/
def writeRow (mode : ConflictMode) (row : Row) (t : TableRows) : TableRows :=
  match row.key? with
  | none => t
  | some key =>
    match mode with
    | .upsert => Sorted.insert key row.values t
    | .ignore => if (Sorted.find? key t).isSome then t else Sorted.insert key row.values t

/-- Puts the rows of a table into it in order. -/
def writeTable (mode : ConflictMode) (c : Category) (rows : List Row) (t : TableRows) : TableRows :=
  (rows.filter fun row => row.table = Schema.tableName c).foldl (fun t row => writeRow mode row t) t

/-- Puts rows into their tables in order. -/
def write (mode : ConflictMode) (rows : List Row) (db : Database) : Database :=
  ⟨Category.all.map fun c => (c, writeTable mode c rows (db.rows c))⟩

/-- The data under a key once rows were written. The last row with the key overwrites what was present; or
what was present is kept, and the first row is taken only if there was nothing. -/
def survivor (mode : ConflictMode) (c : Category) (key : RowKey) (rows : List Row)
    (present : Option (List Cell)) : Option (List Cell) :=
  let written := (rows.filter fun row => row.At c key).map Row.values
  match mode with
  | .upsert => written.getLast?.or present
  | .ignore => present.or written.head?

/-- Each key is there once, with a value for each data column. -/
structure Regular (c : Category) (t : TableRows) : Prop where
  ascending : Sorted.Ascending t
  width : ∀ r ∈ t, r.2.length = (Schema.dataColumns c).length

/-- The database has just the tables of the schema. -/
structure Initialised (db : Database) : Prop where
  created : db.create = db
  regular : ∀ c, Regular c (db.rows c)

/-! ### One table -/

theorem find?_writeRow (mode : ConflictMode) (row : Row) (t : TableRows) (key : RowKey) :
    Sorted.find? key (writeRow mode row t) =
      if row.key? = some key then
        match mode with
        | .upsert => some row.values
        | .ignore => (Sorted.find? key t).or (some row.values)
      else Sorted.find? key t := by
  simp only [writeRow]
  cases hk : row.key? with
  | none => simp
  | some own =>
    cases mode with
    | upsert => simp [Sorted.find?_insert, eq_comm]
    | ignore =>
      by_cases he : own = key
      · subst he
        cases hf : Sorted.find? own t <;> simp [hf, Sorted.find?_insert]
      · cases hf : Sorted.find? own t <;> simp [hf, he, Ne.symm he, Sorted.find?_insert]

theorem writeTable_cons (mode : ConflictMode) (c : Category) (row : Row) (rest : List Row)
    (t : TableRows) :
    writeTable mode c (row :: rest) t =
      writeTable mode c rest (if row.table = Schema.tableName c then writeRow mode row t else t) := by
  by_cases h : row.table = Schema.tableName c <;> simp [writeTable, h]

theorem writeTable_append (mode : ConflictMode) (c : Category) (rows rest : List Row) (t : TableRows) :
    writeTable mode c (rows ++ rest) t = writeTable mode c rest (writeTable mode c rows t) := by
  simp [writeTable]

/-- After rows are written a key has what survives of the rows with the key and the present one. -/
theorem find?_writeTable (mode : ConflictMode) (c : Category) (rows : List Row) (t : TableRows)
    (key : RowKey) :
    Sorted.find? key (writeTable mode c rows t) = survivor mode c key rows (Sorted.find? key t) := by
  induction rows generalizing t with
  | nil => cases mode <;> simp [writeTable, survivor]
  | cons row rest ih =>
    rw [writeTable_cons, ih]
    by_cases htable : row.table = Schema.tableName c
    · rw [if_pos htable, find?_writeRow]
      by_cases hkey : row.key? = some key
      · have hat : row.At c key := ⟨htable, hkey⟩
        cases mode <;> simp [survivor, hkey, hat, List.getLast?_cons]
      · have hat : ¬ row.At c key := fun h => hkey h.2
        cases mode <;> simp [survivor, hkey, hat]
    · have hat : ¬ row.At c key := fun h => htable h.1
      cases mode <;> simp [survivor, htable, hat]

theorem survivor_survivor (mode : ConflictMode) (c : Category) (key : RowKey) (rows : List Row)
    (present : Option (List Cell)) :
    survivor mode c key rows (survivor mode c key rows present) = survivor mode c key rows present := by
  cases mode with
  | upsert => cases h : ((rows.filter fun row => row.At c key).map Row.values).getLast? <;> simp [survivor, h]
  | ignore => cases present <;> simp [survivor]

theorem Regular.insert {c : Category} {t : TableRows} (h : Regular c t) (key : RowKey) {data : List Cell}
    (hd : data.length = (Schema.dataColumns c).length) : Regular c (Sorted.insert key data t) where
  ascending := h.ascending.insert key data
  width r hr := by
    rcases Sorted.mem_insert hr with rfl | hr
    · exact hd
    · exact h.width r hr

theorem length_values {c : Category} {row : Row} (h : row.OfEvent)
    (ht : row.table = Schema.tableName c) : row.values.length = (Schema.dataColumns c).length := by
  obtain ⟨_, _, data, rfl, hdata⟩ := h.exists_values ht
  simp [Row.values, Row.inTable, hdata.length]

theorem Regular.writeRow {c : Category} {t : TableRows} (h : Regular c t) (mode : ConflictMode) {row : Row}
    (hr : row.OfEvent) (ht : row.table = Schema.tableName c) : Regular c (writeRow mode row t) := by
  have hinsert := fun key => h.insert key (length_values hr ht)
  simp only [Database.writeRow]
  split
  · exact h
  · split
    · exact hinsert _
    · split
      · exact h
      · exact hinsert _

theorem Regular.writeTable {c : Category} {t : TableRows} (h : Regular c t) (mode : ConflictMode)
    {rows : List Row} (hrows : ∀ row ∈ rows, row.OfEvent) : Regular c (writeTable mode c rows t) := by
  induction rows generalizing t with
  | nil => exact h
  | cons row rest ih =>
    obtain ⟨hrow, hrest⟩ := List.forall_mem_cons.mp hrows
    rw [writeTable_cons]
    split
    · rename_i ht
      exact ih (h.writeRow mode hrow ht) hrest
    · exact ih h hrest

/-- Rows written once more leave a table as it is. -/
theorem writeTable_writeTable (mode : ConflictMode) {c : Category} {rows : List Row} {t : TableRows}
    (h : Regular c t) (hrows : ∀ row ∈ rows, row.OfEvent) :
    writeTable mode c rows (writeTable mode c rows t) = writeTable mode c rows t := by
  have hw := h.writeTable mode hrows
  refine (hw.writeTable mode hrows).ascending.ext hw.ascending fun key => ?_
  rw [find?_writeTable, find?_writeTable, survivor_survivor]

/-! ### Databases -/

theorem rows_tabulated (f : Category → TableRows) (c : Category) :
    (⟨Category.all.map fun c => (c, f c)⟩ : Database).rows c = f c := by
  cases c <;> rfl

theorem rows_write (mode : ConflictMode) (rows : List Row) (db : Database) (c : Category) :
    (db.write mode rows).rows c = writeTable mode c rows (db.rows c) :=
  rows_tabulated _ c

theorem write_append (mode : ConflictMode) (rows rest : List Row) (db : Database) :
    db.write mode (rows ++ rest) = (db.write mode rows).write mode rest := by
  simp only [write, writeTable_append, rows_tabulated]

theorem write_write (mode : ConflictMode) {rows : List Row} {db : Database} (h : db.Initialised)
    (hrows : ∀ row ∈ rows, row.OfEvent) : (db.write mode rows).write mode rows = db.write mode rows := by
  simp only [write, rows_tabulated, writeTable_writeTable mode (h.regular _) hrows]

theorem Initialised.write {db : Database} (h : db.Initialised) (mode : ConflictMode) {rows : List Row}
    (hrows : ∀ row ∈ rows, row.OfEvent) : (db.write mode rows).Initialised where
  created := by simp only [create, Database.write, rows_tabulated]
  regular c := by
    rw [rows_write]
    exact (h.regular c).writeTable mode hrows

theorem initialised_create : (create {}).Initialised where
  created := rfl
  regular c := by
    have hempty : (create {}).rows c = [] := rows_tabulated _ c
    exact hempty ▸ ⟨.nil, by simp⟩

end Database

end EventIntake
