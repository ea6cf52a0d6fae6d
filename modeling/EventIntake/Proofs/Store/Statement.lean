import EventIntake.Proofs.Sql.Insert
import EventIntake.Proofs.Store.Writes

/-! The statement of rows of events writes them to their table in order. The columns come in another order
than that of the schema, but each value finds its column. -/
namespace EventIntake.Database
open Event Sql

/-! ### Names of columns -/

theorem sameName_refl (a : String) : sameName a a = true := by simp [sameName]

theorem sameName_comm (a b : String) : sameName a b = sameName b a := by
  simp [sameName, Bool.beq_comm]

theorem columns_distinct (c : Category) :
    ((Schema.columns c).map Prod.fst).Pairwise fun a b => sameName a b = false := by
  cases c <;> decide

theorem sameName_tableName (c d : Category) :
    sameName (Schema.tableName d) (Schema.tableName c) = decide (d = c) := by
  cases c <;> cases d <;> decide

/-- A column is found by its name where no other has that name. -/
theorem find?_sameName {cs : Columns} (h : (cs.map Prod.fst).Pairwise fun a b => sameName a b = false)
    {column : String} {v : Cell} (hc : (column, v) ∈ cs) :
    cs.find? (fun p => sameName p.1 column) = some (column, v) := by
  induction cs with
  | nil => cases hc
  | cons d rest ih =>
    obtain ⟨hd, hrest⟩ := List.pairwise_cons.mp h
    rcases List.mem_cons.mp hc with rfl | hc
    · simp [sameName_refl]
    · have hne : sameName d.1 column = false := hd column (List.mem_map_of_mem (f := Prod.fst) hc)
      rw [List.find?_cons_of_neg (by simp [hne])]
      exact ih hrest hc

/-! ### Rows -/

/-- Key and data columns of a row in the order of a statement. -/
def ordered (row : Row) : Columns := sortByName row.keys ++ sortByName row.data

theorem zip_ordered (row : Row) :
    (names row.keys ++ names row.data).zip (cells row.keys ++ cells row.data) = ordered row := by
  rw [List.zip_append (by simp [names, cells]), zip_names_cells, zip_names_cells, ordered]

theorem perm_ordered (row : Row) : (ordered row).Perm (row.keys ++ row.data) :=
  (perm_sortByName _).append (perm_sortByName _)

theorem valueFor_eq {row : Row}
    (h : ((row.keys ++ row.data).map Prod.fst).Pairwise fun a b => sameName a b = false)
    {column : String} {v : Cell} (hc : (column, v) ∈ row.keys ++ row.data) :
    valueFor (names row.keys ++ names row.data) (cells row.keys ++ cells row.data) column = v := by
  have hp := perm_ordered row
  have hd : ((ordered row).map Prod.fst).Pairwise fun a b => sameName a b = false :=
    (hp.map Prod.fst).symm.pairwise h fun {a b} hab => by rw [sameName_comm]; exact hab
  rw [valueFor, zip_ordered, find?_sameName hd (hp.mem_iff.mpr hc)]
  rfl

theorem apply_of_kind? {kind : Schema.ColumnKind} {v : Cell} (h : v.kind? = some kind) :
    Affinity.apply kind v = v := by
  cases v <;> cases h <;> rfl

theorem map_eq_of_zip {α β : Type} {l : List α} {vs : List β} {f : α → β} (hl : vs.length = l.length)
    (h : ∀ p ∈ l.zip vs, f p.1 = p.2) : l.map f = vs :=
  calc l.map f
    _ = ((l.zip vs).map Prod.fst).map f := by rw [List.map_fst_zip (Nat.le_of_eq hl.symm)]
    _ = (l.zip vs).map Prod.snd := by rw [List.map_map]; exact List.map_congr_left h
    _ = vs := List.map_snd_zip (Nat.le_of_eq hl)

/-- A row with a value of the right type for each column is stored just as it is. -/
theorem resolve_typed {c : Category} {row : Row} {vs : List Cell}
    (hcolumns : row.keys ++ row.data = ((Schema.columns c).map Prod.fst).zip vs)
    (ht : Schema.Typed (Schema.columns c) vs) :
    resolve c (names row.keys ++ names row.data) (cells row.keys ++ cells row.data) = vs := by
  have hnames : (row.keys ++ row.data).map Prod.fst = (Schema.columns c).map Prod.fst := by
    rw [hcolumns, List.map_fst_zip (by simp [ht.length])]
  refine map_eq_of_zip ht.length fun p hp => ?_
  have hmem : (p.1.1, p.2) ∈ row.keys ++ row.data := by
    rw [hcolumns, List.zip_map_left]
    exact List.mem_map.mpr ⟨p, hp, rfl⟩
  rw [valueFor_eq (hnames ▸ columns_distinct c) hmem, apply_of_kind? (ht.kind?_of_mem_zip p hp)]

theorem nullColumn?_typed {c : Category} {vs : List Cell} (ht : Schema.Typed (Schema.columns c) vs) :
    nullColumn? c vs = none := by
  have hnone : ((Schema.columns c).zip vs).find? (fun p => p.2 == .null) = none := by
    refine List.find?_eq_none.mpr fun p hp hnull => ?_
    have hk := ht.kind?_of_mem_zip p hp
    rw [eq_of_beq hnull] at hk
    cases hk
  rw [nullColumn?, hnone]
  rfl

/-- The columns of a row of an event: key and data of the schema. -/
theorem columns_ofEvent {c : Category} {row : Row} (h : row.OfEvent) (ht : row.table = Schema.tableName c) :
    row.keys.map Prod.fst = Schema.keyColumns.map Prod.fst ∧
      row.data.map Prod.fst = (Schema.dataColumns c).map Prod.fst := by
  obtain ⟨_, _, data, rfl, hdata⟩ := h.exists_values ht
  exact ⟨rfl, List.map_fst_zip (by simp [hdata.length])⟩

theorem resolve_ofEvent {c : Category} {row : Row} (h : row.OfEvent) (ht : row.table = Schema.tableName c) :
    ∃ key : RowKey, row.key? = some key ∧
      resolve c (names row.keys ++ names row.data) (cells row.keys ++ cells row.data) =
        key.digest :: key.seq :: row.values ∧
      nullColumn? c (key.digest :: key.seq :: row.values) = none := by
  obtain ⟨digest, seq, data, rfl, hdata⟩ := h.exists_values ht
  have hvalues : (Row.inTable c digest seq data).values = data :=
    List.map_snd_zip (by simp [hdata.length])
  have htyped : Schema.Typed (Schema.columns c) (.text digest :: .int seq :: data) :=
    congrArg (fun kinds => some Schema.ColumnKind.text :: some Schema.ColumnKind.bigInt :: kinds) hdata
  rw [hvalues]
  exact ⟨⟨.text digest, .int seq⟩, rfl, resolve_typed rfl htyped, nullColumn?_typed htyped⟩

/-- A conflict replaces every data column. -/
theorem overwrite_all {c : Category} {overwritten : List String} {stored incoming : List Cell}
    (ho : ∀ col ∈ Schema.dataColumns c, col.1 ∈ overwritten)
    (hs : stored.length = (Schema.dataColumns c).length)
    (hi : incoming.length = (Schema.dataColumns c).length) :
    overwrite c overwritten stored incoming = incoming := by
  have hall : ∀ p ∈ (Schema.dataColumns c).zip (stored.zip incoming),
      (if overwritten.any (sameName p.1.1) then p.2.2 else p.2.1) = p.2.2 := by
    intro p hp
    have hcol := ho p.1 (List.of_mem_zip hp).1
    rw [if_pos (List.any_eq_true.mpr ⟨p.1.1, hcol, sameName_refl _⟩)]
  calc overwrite c overwritten stored incoming
    _ = (((Schema.dataColumns c).zip (stored.zip incoming)).map Prod.snd).map Prod.snd := by
        rw [List.map_map]; exact List.map_congr_left hall
    _ = (stored.zip incoming).map Prod.snd := by rw [List.map_snd_zip (by simp [hs, hi])]
    _ = incoming := List.map_snd_zip (by simp [hs, hi])

theorem put_ofEvent {c : Category} {s : Insert} {t : TableRows} {row : Row} (hr : Regular c t)
    (h : row.OfEvent) (ht : row.table = Schema.tableName c) (hk : s.keys = names row.keys)
    (hd : s.data = names row.data) :
    put c s t (cells row.keys ++ cells row.data) = .ok (writeRow s.mode row t) := by
  obtain ⟨key, hkey, hresolve, hnull⟩ := resolve_ofEvent h ht
  simp only [put, Insert.columns, hk, hd, hresolve, hnull, writeRow, hkey]
  cases hf : Sorted.find? key t with
  | none => cases s.mode <;> simp
  | some stored =>
    cases hm : s.mode with
    | ignore => simp [Insert.overwritten, hm]
    | upsert =>
      have hnames : ∀ col ∈ Schema.dataColumns c, col.1 ∈ s.data := by
        intro col hcol
        rw [hd, mem_names, (columns_ofEvent h ht).2]
        exact List.mem_map_of_mem hcol
      have hstored := hr.width _ (Sorted.mem_of_find? hf)
      have hne : s.data ≠ [] := List.ne_nil_of_mem (hnames ("timestamp", .bigInt) (List.mem_cons_self ..))
      simp [Insert.overwritten, hm, hne, overwrite_all hnames hstored (length_values h ht)]

/-! ### Statements -/

theorem foldlM_put {c : Category} {s : Insert} {t : TableRows} {record : Record} (hr : Regular c t)
    (h : ∀ row ∈ record, row.OfEvent ∧ row.table = Schema.tableName c ∧ s.keys = names row.keys ∧
      s.data = names row.data) :
    (record.map fun row => cells row.keys ++ cells row.data).foldlM (put c s) t =
      .ok (writeTable s.mode c record t) := by
  induction record generalizing t with
  | nil => rfl
  | cons row rest ih =>
    obtain ⟨⟨hrow, ht, hk, hd⟩, hrest⟩ := List.forall_mem_cons.mp h
    rw [List.map_cons, List.foldlM_cons, put_ofEvent hr hrow ht hk hd, writeTable_cons, if_pos ht]
    exact ih (hr.writeRow s.mode hrow ht) hrest

theorem tables_eq {db : Database} (h : db.Initialised) :
    db.tables = Category.all.map fun c => (c, db.rows c) :=
  (congrArg tables h.created).symm

theorem table?_tableName {db : Database} (h : db.Initialised) (c : Category) :
    db.table? (Schema.tableName c) = some (c, db.rows c) := by
  rw [table?, tables_eq h]
  cases c <;> simp [Category.all, sameName_tableName]

theorem foreign?_ofEvent {c : Category} {row : Row} (h : row.OfEvent) (ht : row.table = Schema.tableName c) :
    foreign? c (names row.keys ++ names row.data) = none := by
  obtain ⟨hkeys, hdata⟩ := columns_ofEvent h ht
  refine List.find?_eq_none.mpr fun name hname => ?_
  have hmem : name ∈ (Schema.columns c).map Prod.fst := by
    rw [Schema.columns, List.map_append, ← hkeys, ← hdata]
    exact (List.mem_append.mp hname).elim (fun h => List.mem_append_left _ (mem_names.mp h))
      fun h => List.mem_append_right _ (mem_names.mp h)
  obtain ⟨col, hcol, rfl⟩ := List.mem_map.mp hmem
  have hany : (Schema.columns c).any (fun d => sameName d.1 col.1) = true :=
    List.any_eq_true.mpr ⟨col, hcol, sameName_refl _⟩
  simp [hany]

theorem targetFits_ofEvent {row : Row} (h : row.OfEvent) : targetFits (names row.keys) = true := by
  obtain ⟨info, p, rfl⟩ := h
  have hnames : names (Row.ofEvent info p).keys = ["event_seq", "tx_digest"] := by
    simp [Row.keys_ofEvent, names, sortByName, insertByName]
  rw [hnames]
  decide

theorem insert_tabulated (f : Category → TableRows) (c : Category) (t : TableRows) :
    Sorted.insert c t (Category.all.map fun d => (d, f d)) =
      Category.all.map fun d => (d, if d = c then t else f d) := by
  cases c <;> rfl

/-- Writing to one table leaves the others as they are. -/
theorem insert_writeTable {db : Database} (hdb : db.Initialised) (mode : ConflictMode) {c : Category}
    {record : Record} (h : ∀ row ∈ record, row.table = Schema.tableName c) :
    (⟨Sorted.insert c (writeTable mode c record (db.rows c)) db.tables⟩ : Database) =
      db.write mode record := by
  have hother : ∀ d, d ≠ c → writeTable mode d record (db.rows d) = db.rows d := by
    intro d hd
    have hnone : record.filter (fun row => row.table = Schema.tableName d) = [] := by
      refine List.filter_eq_nil_iff.mpr fun row hrow htable => hd ?_
      exact Schema.tableName_injective ((of_decide_eq_true htable).symm.trans (h row hrow))
    rw [writeTable, hnone]
    rfl
  rw [tables_eq hdb, insert_tabulated, write]
  refine congrArg Database.mk (List.map_congr_left fun d _ => ?_)
  split
  · rename_i hd
    rw [hd]
  · rename_i hd
    rw [hother d hd]

/-- Unless its text is refused, the statement of a record of rows of events writes them in order. -/
theorem run_ofRecord {mode : ConflictMode} {record : Record} {s : Insert} {db : Database}
    (hdb : db.Initialised) (hrows : ∀ row ∈ record, row.OfEvent)
    (hs : Insert.ofRecord mode record = .ok (some s)) :
    db.run s = match textFault? s with
      | some fault => .error fault
      | none => .ok (db.write mode record) := by
  obtain ⟨hcells, rfl, hne, hfit⟩ := Insert.of_ofRecord_eq hs
  obtain ⟨first, hfirst⟩ := List.exists_mem_of_ne_nil _ hne
  obtain ⟨htable, hkeys, hdata⟩ := hfit first hfirst
  obtain ⟨c, hc⟩ : ∃ c, first.table = Schema.tableName c := by
    obtain ⟨info, p, rfl⟩ := hrows first hfirst
    exact ⟨p.category, Row.table_ofEvent info p⟩
  have hall : ∀ row ∈ record, row.OfEvent ∧ row.table = Schema.tableName c ∧ s.keys = names row.keys ∧
      s.data = names row.data := fun row hrow =>
    have hrow' := hfit row hrow
    ⟨hrows row hrow, hrow'.1.trans (htable.symm.trans hc), hrow'.2.1.symm, hrow'.2.2.symm⟩
  have hfold := foldlM_put (hdb.regular c) hall
  have hforeign := foreign?_ofEvent (hrows first hfirst) hc
  have htarget := targetFits_ofEvent (hrows first hfirst)
  rw [hkeys, hdata] at hforeign
  rw [hkeys] at htarget
  cases ht : textFault? s with
  | some fault => simp only [run, ht]
  | none =>
    simp only [run, ht, ← htable, hc, table?_tableName hdb, Insert.columns, hforeign, htarget, hcells,
      hfold, Bool.not_true, Bool.false_eq_true, if_false, bind, Except.bind]
    rw [insert_writeTable hdb s.mode fun row hrow => (hall row hrow).2.1]

end EventIntake.Database
