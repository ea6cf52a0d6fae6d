import EventIntake.Record.OfEvent

/-! The tables that records belong to, and the values that rows of events have. -/
namespace EventIntake
open Event

theorem Schema.tableName_injective {c d : Category} (h : tableName c = tableName d) : c = d := by
  cases c <;> cases d <;> first | rfl | exact absurd h (by decide)

/-- The record is a single row of the table of the category. -/
def Record.InTable (c : Category) (r : Record) : Prop := ∃ row, r = [row] ∧ row.table = Schema.tableName c

theorem Row.table_ofEvent (info : Meta) (p : Payload) : (ofEvent info p).table = Schema.tableName p.category := by
  cases p <;> rfl

theorem Row.keys_ofEvent (info : Meta) (p : Payload) :
    (ofEvent info p).keys = [("tx_digest", .text info.txDigest), ("event_seq", .int info.eventSeq)] := by
  cases p <;> rfl

theorem Record.inTable_ofEvent (info : Meta) (p : Payload) : (Record.ofEvent info p).InTable p.category :=
  ⟨Row.ofEvent info p, rfl, Row.table_ofEvent info p⟩

theorem Record.InTable.unique {c d : Category} {r : Record} (hc : r.InTable c) (hd : r.InTable d) : c = d := by
  obtain ⟨row, rfl, hrow⟩ := hc
  obtain ⟨_, he, hd⟩ := hd
  cases he
  exact Schema.tableName_injective (hrow.symm.trans hd)

instance (c : Category) : DecidablePred (Record.InTable c)
  | [row] =>
    decidable_of_iff (row.table = Schema.tableName c)
      ⟨fun h => ⟨row, rfl, h⟩, fun ⟨_, he, h⟩ => List.singleton_inj.mp he ▸ h⟩
  | [] => isFalse fun ⟨_, he, _⟩ => by cases he
  | _ :: _ :: _ => isFalse fun ⟨_, he, _⟩ => by cases he

/-- The records of one table, in order. -/
def recordsIn (c : Category) (records : List Record) : List Record :=
  records.filter fun r => Record.InTable c r

theorem recordsIn_append (c : Category) (records later : List Record) :
    recordsIn c (records ++ later) = recordsIn c records ++ recordsIn c later :=
  List.filter_append ..

theorem recordsIn_cons (c : Category) {d : Category} {r : Record} (h : r.InTable d) (rest : List Record) :
    recordsIn c (r :: rest) = if d = c then r :: recordsIn c rest else recordsIn c rest := by
  split
  · rename_i hd
    exact List.filter_cons_of_pos (by simpa [← hd] using h)
  · rename_i hd
    exact List.filter_cons_of_neg (by simpa using fun hc => hd (h.unique hc))

/-! ### Values of rows -/

/-- The type of the columns that store a value as it is. -/
def Cell.kind? : Cell → Option Schema.ColumnKind
  | .int _ => some .bigInt
  | .text _ => some .text
  | .null => none

namespace Schema

/-- One value of the right type for each column. -/
def Typed (columns : List (String × ColumnKind)) (vs : List Cell) : Prop :=
  vs.map Cell.kind? = columns.map fun col => some col.2

theorem Typed.length {columns : List (String × ColumnKind)} {vs : List Cell} (h : Typed columns vs) :
    vs.length = columns.length := by
  simpa using congrArg List.length h

theorem Typed.kind?_of_mem_zip {columns : List (String × ColumnKind)} {vs : List Cell}
    (h : Typed columns vs) : ∀ p ∈ columns.zip vs, p.2.kind? = some p.1.2 := by
  induction columns generalizing vs with
  | nil => simp
  | cons col rest ih =>
    obtain ⟨v, vs, rfl, hv, hvs⟩ := List.map_eq_cons_iff.mp h
    exact List.forall_mem_cons.mpr ⟨hv, ih hvs⟩

end Schema

namespace Row

/-- The row of some event. -/
def OfEvent (row : Row) : Prop := ∃ info p, row = Row.ofEvent info p

/-- The data of an event stand under the columns of its table. -/
theorem ofEvent_eq_inTable (info : Meta) (p : Payload) :
    ofEvent info p = inTable p.category info.txDigest info.eventSeq ((ofEvent info p).data.map Prod.snd) := by
  cases p <;> rfl

theorem typed_ofEvent (info : Meta) (p : Payload) :
    Schema.Typed (Schema.dataColumns p.category) ((ofEvent info p).data.map Prod.snd) := by
  cases p <;> rfl

theorem OfEvent.exists_values {c : Category} {row : Row} (h : row.OfEvent)
    (ht : row.table = Schema.tableName c) :
    ∃ digest seq data, row = inTable c digest seq data ∧ Schema.Typed (Schema.dataColumns c) data := by
  obtain ⟨info, p, rfl⟩ := h
  cases Schema.tableName_injective ((table_ofEvent info p).symm.trans ht)
  exact ⟨_, _, _, ofEvent_eq_inTable info p, typed_ofEvent info p⟩

end Row

end EventIntake
