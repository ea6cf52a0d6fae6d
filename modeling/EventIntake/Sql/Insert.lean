import EventIntake.Record.Row

/-! The statement that stores a record. -/
namespace EventIntake.Sql

/-- What a row does to a stored row of the same key. -/
inductive ConflictMode
  | upsert
  | ignore
  deriving DecidableEq, Repr

/-- Puts a column before the first one with a greater name. -/
def insertByName (c : String × Cell) : Columns → Columns
  | [] => [c]
  | d :: rest => if c.1 ≤ d.1 then c :: d :: rest else d :: insertByName c rest

/-- Columns in ascending order of their names; equal names keep their order. -/
def sortByName : Columns → Columns
  | [] => []
  | c :: rest => insertByName c (sortByName rest)

def names (cs : Columns) : List String := (sortByName cs).map Prod.fst
def cells (cs : Columns) : List Cell := (sortByName cs).map Prod.snd

/-- An insertion of rows. A row whose key is present overwrites the data columns or is dropped. -/
structure Insert where
  table : String
  keys : List String
  data : List String
  /-- The values of the key columns, then of the data columns. -/
  rows : List (List Cell)
  mode : ConflictMode
  deriving DecidableEq, Repr

/-- A row of another table or with other columns than the first row. -/
structure MixedCollection where
  table : String
  index : Nat
  deriving DecidableEq, Repr

def MixedCollection.message (e : MixedCollection) : String :=
  "Collection row " ++ toString e.index ++ " does not match table " ++ e.table ++ " or its columns"

namespace Insert

/-- The columns in the order of the values. -/
def columns (s : Insert) : List String := s.keys ++ s.data

/-- The columns that a conflict overwrites. -/
def overwritten (s : Insert) : List String :=
  match s.mode with
  | .upsert => s.data
  | .ignore => []

/-- The values of the rows from place `index` on, if they match the statement. -/
def rowsFrom (table : String) (keys data : List String) :
    Nat → Record → Except MixedCollection (List (List Cell))
  | _, [] => .ok []
  | index, r :: rest =>
    if r.table = table ∧ names r.keys = keys ∧ names r.data = data then do
      .ok ((cells r.keys ++ cells r.data) :: (← rowsFrom table keys data (index + 1) rest))
    else .error ⟨table, index⟩

/-- The statement of a record; none for no rows. -/
def ofRecord (mode : ConflictMode) (record : Record) : Except MixedCollection (Option Insert) :=
  match record with
  | [] => .ok none
  | first :: _ => do
    let keys := names first.keys
    let data := names first.data
    .ok (some ⟨first.table, keys, data, ← rowsFrom first.table keys data 0 record, mode⟩)

end Insert

end EventIntake.Sql
