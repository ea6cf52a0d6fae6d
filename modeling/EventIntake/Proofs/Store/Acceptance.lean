import EventIntake.Proofs.Sql.RoundTrip
import EventIntake.Proofs.Store.Ledger
import EventIntake.Proofs.Store.Survivors

/-! Which batches of events a database takes, whatever was written to it before. -/
namespace EventIntake
open Event Sql

namespace Database

/-! ### Databases after any writes -/

theorem length_resolve (c : Category) (columns : List String) (cells : List Cell) :
    (resolve c columns cells).length = (Schema.dataColumns c).length + 2 := by
  simp only [resolve, Schema.columns, Schema.keyColumns, List.length_map, List.length_append,
    List.length_cons, List.length_nil, Nat.add_comm]

theorem Regular.put {c : Category} {s : Insert} {t stored : TableRows} {cells : List Cell}
    (h : Regular c t) (hp : Database.put c s t cells = .ok stored) : Regular c stored := by
  have hlength := length_resolve c s.columns cells
  simp only [Database.put] at hp
  split at hp
  · cases hp
  · split at hp
    · rename_i digest seq incoming hrow
      have hincoming : incoming.length = (Schema.dataColumns c).length := by
        rw [hrow] at hlength
        simpa using hlength
      split at hp
      · cases hp
        exact h.insert _ hincoming
      · rename_i old hold
        have hwidth := h.width _ (Sorted.mem_of_find? hold)
        split at hp
        · cases hp
          exact h
        · cases hp
          exact h.insert _ (by simp [overwrite, hincoming, hwidth])
    · cases hp
      exact h

theorem Regular.foldlM_put {c : Category} {s : Insert} {rows : List (List Cell)} {t stored : TableRows}
    (h : Regular c t) (hp : rows.foldlM (Database.put c s) t = .ok stored) : Regular c stored := by
  induction rows generalizing t with
  | nil =>
    cases hp
    exact h
  | cons row rest ih =>
    rw [List.foldlM_cons] at hp
    cases hr : Database.put c s t row with
    | error e => simp [hr, bind, Except.bind] at hp
    | ok next =>
      rw [hr] at hp
      exact ih (h.put hr) hp

theorem rows_eq_of_table? {db : Database} (h : db.Initialised) {name : String} {c : Category}
    {t : TableRows} (ht : db.table? name = some (c, t)) : t = db.rows c := by
  have hmem := List.mem_of_find?_eq_some ht
  rw [tables_eq h] at hmem
  obtain ⟨d, _, hd⟩ := List.mem_map.mp hmem
  cases hd
  rfl

/-- A statement that ran put its rows into the table of its name, and changed no other. -/
theorem of_run_eq_ok {db stored : Database} {s : Insert} (h : db.run s = .ok stored) :
    ∃ c t t', db.table? s.table = some (c, t) ∧ s.rows.foldlM (put c s) t = .ok t' ∧
      stored = ⟨Sorted.insert c t' db.tables⟩ := by
  simp only [run] at h
  split at h
  · cases h
  · split at h
    · cases h
    · rename_i c t ht
      split at h
      · cases h
      · split at h
        · cases h
        · cases hput : s.rows.foldlM (put c s) t with
          | error e => simp [hput, bind, Except.bind] at h
          | ok t' =>
            rw [hput] at h
            cases h
            exact ⟨c, t, t', ht, hput, rfl⟩

theorem Initialised.run {db stored : Database} {s : Insert} (h : db.Initialised)
    (hr : db.run s = .ok stored) : stored.Initialised := by
  obtain ⟨c, t, t', ht, hput, rfl⟩ := of_run_eq_ok hr
  rw [rows_eq_of_table? h ht] at hput
  rw [tables_eq h, insert_tabulated]
  refine ⟨by simp only [create, rows_tabulated], fun d => ?_⟩
  rw [rows_tabulated]
  split
  · rename_i hd
    exact hd ▸ (h.regular c).foldlM_put hput
  · exact h.regular d

theorem Initialised.ran {mode : ConflictMode} {records : List Record} {db stored : Database}
    (h : db.Initialised) (hran : Ran mode records db stored) : stored.Initialised := by
  induction hran with
  | nil => exact h
  | skip _ ih => exact ih h
  | insert _ hr _ ih => exact ih (h.run hr)

/-- A database stays regular under any batch. -/
theorem Initialised.persist {db : Database} (h : db.Initialised) (mode : ConflictMode)
    (records : List Record) : (db.persist mode records).2.Initialised := by
  cases hm : records.findSome? Insert.mixed? with
  | some e =>
    simp only [Database.persist, statementsFrom_mixed mode hm 0]
    exact h
  | none =>
    rcases persist_without_mixed mode hm db with ⟨stored, hran, he⟩ | ⟨_, _, _, he⟩
    · exact he ▸ h.ran hran
    · exact he ▸ h

/-- The database after batches in any modes, of which some may have failed. -/
def afterAll (batches : List (ConflictMode × List Record)) (db : Database) : Database :=
  batches.foldl (fun db b => (db.persist b.1 b.2).2) db

theorem Initialised.afterAll {db : Database} (h : db.Initialised)
    (batches : List (ConflictMode × List Record)) : (db.afterAll batches).Initialised := by
  induction batches generalizing db with
  | nil => exact h
  | cons b rest ih => exact ih (h.persist b.1 b.2)

end Database

/-! ### Texts that are refused -/

/-- The text of a value, if it holds a NUL. -/
def Cell.nulText? : Cell → Option String
  | .text s => if '\x00' ∈ s.toList then some s else none
  | _ => none

/-- The first text with a NUL, in the order of the statement of the row. -/
def Row.nulText? (row : Row) : Option String :=
  (cells row.keys ++ cells row.data).findSome? Cell.nulText?

/-- What a database reads of the literal of a text with a NUL. -/
def Sql.upToNul (s : String) : String :=
  String.ofList ((Render.literal .sqlite s).takeWhile (· != '\x00'))

namespace Database

theorem cut?_written (v : Cell) : cut? (Reading.written v) = v.nulText?.map upToNul := by
  cases v with
  | text s =>
    have hmem : '\x00' ∈ Render.literal .sqlite s ↔ '\x00' ∈ s.toList := by
      simp [Render.literal, Reading.mem_doubled]
    simp only [cut?, Reading.written, List.contains_iff_mem, hmem, Cell.nulText?]
    split <;> rfl
  | _ => rfl

theorem cut?_tableName (c : Category) : cut? (Render.name (Schema.tableName c)) = none := by
  cases c <;> decide

theorem cut?_columns (c : Category) : ∀ col ∈ Schema.columns c, cut? (Render.name col.1) = none := by
  cases c <;> decide

/-- The statement of a single row. -/
def insertRow (mode : ConflictMode) (row : Row) : Insert :=
  ⟨row.table, names row.keys, names row.data, [cells row.keys ++ cells row.data], mode⟩

theorem mixed?_row (row : Row) : Insert.mixed? [row] = none := by
  simp [Insert.mixed?, Insert.fits]

theorem ofRecord_row (mode : ConflictMode) (row : Row) :
    Insert.ofRecord mode [row] = .ok (some (insertRow mode row)) := by
  simp [Insert.ofRecord_eq, mixed?_row, insertRow]

theorem exists_table {row : Row} (h : row.OfEvent) : ∃ c, row.table = Schema.tableName c := by
  obtain ⟨info, p, rfl⟩ := h
  exact ⟨p.category, Row.table_ofEvent info p⟩

theorem perm_columns {c : Category} (mode : ConflictMode) {row : Row} (h : row.OfEvent)
    (ht : row.table = Schema.tableName c) :
    (insertRow mode row).columns.Perm ((Schema.columns c).map Prod.fst) := by
  obtain ⟨hkeys, hdata⟩ := columns_ofEvent h ht
  rw [Schema.columns, List.map_append, ← hkeys, ← hdata]
  exact ((perm_sortByName _).map Prod.fst).append ((perm_sortByName _).map Prod.fst)

theorem columns_ne_nil (mode : ConflictMode) {row : Row} (h : row.OfEvent) :
    (insertRow mode row).columns ≠ [] := by
  intro hnil
  obtain ⟨c, hc⟩ := exists_table h
  have hlength := (perm_columns mode h hc).length_eq
  simp [hnil, Schema.columns, Schema.keyColumns] at hlength

/-- The names are those of the schema, so only a text with a NUL can be refused. -/
theorem textFault?_insertRow (mode : ConflictMode) {row : Row} (h : row.OfEvent) :
    textFault? (insertRow mode row) = row.nulText?.map fun s => .unrecognizedToken (upToNul s) := by
  obtain ⟨c, hc⟩ := exists_table h
  have hcolumns :
      (insertRow mode row).columns.findSome? (fun name => cut? (Render.name name)) = none := by
    refine List.findSome?_eq_none_iff.mpr fun name hname => ?_
    obtain ⟨col, hcol, rfl⟩ := List.mem_map.mp ((perm_columns mode h hc).mem_iff.mp hname)
    exact cut?_columns c col hcol
  have htable : cut? (Render.name (insertRow mode row).table) = none := by
    rw [insertRow, hc]
    exact cut?_tableName c
  have hcells : (insertRow mode row).rows.flatten.findSome? (fun v => cut? (Reading.written v)) =
      row.nulText?.map upToNul := by
    simp only [cut?_written, insertRow, List.flatten_singleton, Row.nulText?, List.map_findSome?]
    rfl
  rw [Reading.textFault?_eq (columns_ne_nil mode h), Reading.firstCut?, hcolumns, htable, hcells,
    Option.none_or, Option.none_or, Option.map_map]
  rfl

theorem read_insertRow (mode : ConflictMode) {row : Row} (h : row.OfEvent) :
    Reading.read (Render.insert .sqlite (insertRow mode row)) =
      match row.nulText? with
      | some s => .error (.unrecognizedToken (upToNul s))
      | none => .ok (some (insertRow mode row).clauses) := by
  have hrow : ∀ r ∈ (insertRow mode row).rows, r ≠ [] := by
    obtain ⟨info, p, rfl⟩ := h
    simp [insertRow, Row.keys_ofEvent, cells, sortByName, insertByName]
  rw [Reading.read_insert (columns_ne_nil mode h) (List.cons_ne_nil _ _) hrow,
    textFault?_insertRow mode h]
  cases row.nulText? <;> rfl

/-- The first text with a NUL, after the place of its row. -/
def firstNul? (rows : List Row) : Option (Nat × String) :=
  rows.zipIdx.findSome? fun p => p.1.nulText?.map (p.2, ·)

theorem firstNul?_eq_none {rows : List Row} (h : ∀ row ∈ rows, row.nulText? = none) :
    firstNul? rows = none := by
  refine List.findSome?_eq_none_iff.mpr fun p hp => ?_
  rw [h p.1 (List.fst_mem_of_mem_zipIdx hp)]
  rfl

theorem firstNul?_append {before after : List Row} {row : Row} {s : String}
    (hbefore : ∀ row ∈ before, row.nulText? = none) (h : row.nulText? = some s) :
    firstNul? (before ++ row :: after) = some (before.length, s) := by
  have hnone := firstNul?_eq_none hbefore
  rw [firstNul?] at hnone ⊢
  simp [List.zipIdx_append, List.findSome?_append, hnone, h]

section Rows
variable {mode : ConflictMode} {rows : List Row} {db stored : Database}

theorem flatten_rows (rows : List Row) : (rows.map fun row => [row]).flatten = rows :=
  List.flatMap_singleton' rows

theorem Ran.eq_write_rows (h : Ran mode (rows.map fun row => [row]) db stored) (hdb : db.Initialised)
    (hrows : ∀ row ∈ rows, row.OfEvent) :
    stored = db.write mode rows ∧ ∀ row ∈ rows, row.nulText? = none := by
  obtain ⟨he, htext⟩ := h.eq_write hdb (by rwa [flatten_rows])
  rw [flatten_rows] at he
  refine ⟨he, fun row hrow => ?_⟩
  have hfault := htext _ (List.mem_map_of_mem hrow) _ (ofRecord_row mode row)
  rw [textFault?_insertRow mode (hrows row hrow)] at hfault
  exact Option.map_eq_none_iff.mp hfault

/-- Rows of events are all written, unless the statement of one is refused for a text with a NUL. -/
theorem persist_rows (mode : ConflictMode) (hdb : db.Initialised) (hrows : ∀ row ∈ rows, row.OfEvent) :
    db.persist mode (rows.map fun row => [row]) =
      match firstNul? rows with
      | some (index, s) => (.error (.statement index (.unrecognizedToken (upToNul s))), db)
      | none => (.ok (), db.write mode rows) := by
  have hmixed : (rows.map fun row => [row]).findSome? Insert.mixed? = none := by
    simp [List.findSome?_map, Function.comp_def, mixed?_row]
  rcases persist_without_mixed mode hmixed db with ⟨stored, hran, he⟩ | ⟨index, fault, hfails, he⟩
  · obtain ⟨rfl, hnone⟩ := hran.eq_write_rows hdb hrows
    rw [he, firstNul?_eq_none hnone]
  · obtain ⟨before, r, after, s, next, hrecords, rfl, hran, hs, hrun⟩ := hfails
    obtain ⟨first, rest, rfl, rfl, hrest⟩ := List.map_eq_append_iff.mp hrecords
    obtain ⟨row, last, rfl, rfl, rfl⟩ := List.map_eq_cons_iff.mp hrest
    have hfirst := fun row hrow => hrows row (List.mem_append_left _ hrow)
    have hrow := hrows row (by simp)
    obtain ⟨rfl, hnone⟩ := hran.eq_write_rows hdb hfirst
    cases (ofRecord_row mode row).symm.trans hs
    rw [run_ofRecord (hdb.write mode hfirst) (by simpa using hrow) hs,
      textFault?_insertRow mode hrow] at hrun
    cases hnul : row.nulText? with
    | none => simp [hnul] at hrun
    | some s =>
      rw [hnul] at hrun
      cases hrun
      rw [he, firstNul?_append hnone hnul, List.length_map]

end Rows

/-- The statement of each event is read as it was meant, and a batch of events is stored, whatever its
texts hold and whatever was written before. Only a NUL in a text ends a statement too soon: the first one
refuses the whole batch. -/
theorem persist_events (mode : ConflictMode) (batches : List (ConflictMode × List Record))
    (events : List (Meta × Payload)) :
    let db := (create {}).afterAll batches
    let records := events.map fun e => Record.ofEvent e.1 e.2
    (∀ r ∈ records, ∃ row, r = [row] ∧ Insert.ofRecord mode r = .ok (some (insertRow mode row)) ∧
      Reading.read (Render.insert .sqlite (insertRow mode row)) =
        match row.nulText? with
        | some s => .error (.unrecognizedToken (upToNul s))
        | none => .ok (some (insertRow mode row).clauses)) ∧
    db.persist mode records =
      match firstNul? records.flatten with
      | some (index, s) => (.error (.statement index (.unrecognizedToken (upToNul s))), db)
      | none => (.ok (), db.write mode records.flatten) := by
  intro db records
  have hdb : db.Initialised := initialised_create.afterAll batches
  have hrecords : records = (events.map fun e => Row.ofEvent e.1 e.2).map fun row => [row] := by
    rw [List.map_map]
    rfl
  have hrows : ∀ row ∈ events.map fun e => Row.ofEvent e.1 e.2, row.OfEvent := by
    intro row hrow
    obtain ⟨e, _, rfl⟩ := List.mem_map.mp hrow
    exact ⟨e.1, e.2, rfl⟩
  rw [hrecords, flatten_rows]
  refine ⟨fun r hr => ?_, persist_rows mode hdb hrows⟩
  obtain ⟨row, hrow, rfl⟩ := List.mem_map.mp hr
  exact ⟨row, rfl, ofRecord_row mode row, read_insertRow mode (hrows row hrow)⟩

/-- An event as pushes bring it: its payload and its envelope were decoded. -/
def Pushed (info : Meta) (p : Payload) : Prop :=
  ∃ raw payloads tag text, Envelope.decode raw = .ok ⟨info, payloads⟩ ∧ (tag, text) ∈ payloads ∧
    decodeTagged tag text = .ok p

/-- Pushes can bring a NUL: a sender that is no address is kept as it came. -/
theorem not_every_pushed_persists :
    ¬ ∀ (mode : ConflictMode) (batches : List (ConflictMode × List Record))
        (events : List (Meta × Payload)), (∀ e ∈ events, Pushed e.1 e.2) →
      let records := events.map fun e => Record.ofEvent e.1 e.2
      (((create {}).afterAll batches).persist mode records).1 = .ok () := by
  intro h
  have hraw : Envelope.decode
      ("\x7b\"timestamp\":1,\"id\":\x7b\"txDigest\":\"d\",\"eventSeq\":1\x7d,\"event\":\x7b\"publish\":" ++
        "\x7b\"sender\":\"a\\u0000b\",\"packageId\":\"0x2\",\"version\":1,\"digest\":\"g\"\x7d\x7d\x7d") =
      .ok ⟨⟨1, "d", 1⟩, [("publish",
        "\x7b\"sender\":\"a\\u0000b\",\"packageId\":\"0x2\",\"version\":1,\"digest\":\"g\"\x7d")]⟩ := by
    decide +kernel
  have hpayload : Publish.codec.decode
      "\x7b\"sender\":\"a\\u0000b\",\"packageId\":\"0x2\",\"version\":1,\"digest\":\"g\"\x7d" =
      .ok ⟨"a\x00b", "0x2", 1, "g"⟩ := by
    decide +kernel
  have hpushed : Pushed ⟨1, "d", 1⟩ (.publish ⟨"a\x00b", "0x2", 1, "g"⟩) := by
    refine ⟨_, _, "publish", _, hraw, .head _, ?_⟩
    have htag : Payload.decoder? "publish" = some fun s => Payload.publish <$> Publish.codec.decode s := rfl
    simp only [decodeTagged, htag, hpayload]
    rfl
  have hok := h .upsert [] [(⟨1, "d", 1⟩, .publish ⟨"a\x00b", "0x2", 1, "g"⟩)] (by simpa using hpushed)
  exact absurd hok (by decide +kernel)

end Database

end EventIntake
