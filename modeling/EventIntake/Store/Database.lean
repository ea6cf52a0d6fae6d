import EventIntake.Sorted
import EventIntake.Sql.Render
import EventIntake.Store.Affinity
import EventIntake.Store.Basic

/-! A database of event tables. Each has a row at most once for a digest and sequence, and no column
holds null. -/
namespace EventIntake
open Event Sql

/-- What identifies a row of an event table. -/
structure RowKey where
  digest : Cell
  seq : Cell
  deriving DecidableEq, Repr

/-- Null before numbers before texts. -/
def Cell.before : Cell → Cell → Bool
  | .null, .null => false
  | .null, _ => true
  | .int a, .int b => a < b
  | .int _, .text _ => true
  | .text a, .text b => a < b
  | _, _ => false

instance : LT RowKey :=
  ⟨fun a b => a.digest.before b.digest ∨ a.digest = b.digest ∧ a.seq.before b.seq⟩

instance : DecidableLT RowKey := fun a b =>
  inferInstanceAs (Decidable (a.digest.before b.digest ∨ a.digest = b.digest ∧ a.seq.before b.seq))

/-- The data columns of each row, in the order of the schema. -/
abbrev TableRows := List (RowKey × List Cell)

/-- The tables that were created, with their rows. -/
structure Database where
  tables : List (Category × TableRows) := []
  deriving DecidableEq, Repr

namespace Database

def rows (c : Category) (db : Database) : TableRows := (Sorted.find? c db.tables).getD []

/-- Creates the tables that are missing. -/
def create (db : Database) : Database :=
  ⟨Category.all.map fun c => (c, db.rows c)⟩

/-- Names are the same up to the case of ASCII letters. -/
def sameName (a b : String) : Bool := a.toList.map Char.toLower == b.toList.map Char.toLower

/-- The table of a statement, if it was created. -/
def table? (name : String) (db : Database) : Option (Category × TableRows) :=
  db.tables.find? fun t => sameName (Schema.tableName t.1) name

/-! ### Faults that show before any row is looked at -/

/-- The part of a quoted token before a NUL, which ends the statement. -/
def cut? (token : List Char) : Option String :=
  if token.contains '\x00' then some (String.ofList (token.takeWhile (· != '\x00'))) else none

/-- The first fault in the text of a statement. -/
def textFault? (s : Insert) : Option Fault :=
  match cut? (Render.name s.table) with
  | some token => some (.unrecognizedToken token)
  | none =>
    if s.columns.isEmpty then some .emptyColumnList
    else
      let cells := s.rows.flatten.map fun v => match v with
        | .text t => Render.literal .sqlite t
        | _ => []
      ((s.columns.map Render.name ++ cells).findSome? cut?).map .unrecognizedToken

/-- Whether the keys of a statement are no target at all or just the key columns. -/
def targetFits (keys : List String) : Bool :=
  keys.isEmpty ||
    (keys.length == Schema.keyColumns.length &&
      Schema.keyColumns.all fun col => keys.any (sameName col.1))

/-- The first column of a statement that its table does not have. The numbers that SQLite gives to rows count as no
columns here, although it takes them as rowid, oid or _rowid_. No row of an event names one. -/
def foreign? (c : Category) (columns : List String) : Option String :=
  columns.find? fun name => !(Schema.columns c).any fun col => sameName col.1 name

/-! ### Rows -/

/-- The value for a column: of repeated columns the first, null if there is none. -/
def valueFor (columns : List String) (cells : List Cell) (column : String) : Cell :=
  (((columns.zip cells).find? fun p => sameName p.1 column).map Prod.snd).getD .null

/-- The row as the table would hold it. -/
def resolve (c : Category) (columns : List String) (cells : List Cell) : List Cell :=
  (Schema.columns c).map fun col => Affinity.apply col.2 (valueFor columns cells col.1)

/-- The first column that is null. -/
def nullColumn? (c : Category) (row : List Cell) : Option String :=
  (((Schema.columns c).zip row).find? fun p => p.2 == .null).map fun p => p.1.1

/-- The stored row with the overwritten columns from the incoming one. -/
def overwrite (c : Category) (overwritten : List String) (stored incoming : List Cell) : List Cell :=
  ((Schema.dataColumns c).zip (stored.zip incoming)).map fun (col, old, new) =>
    if overwritten.any (sameName col.1) then new else old

/-- Puts a row into its table. -/
def put (c : Category) (s : Insert) (t : TableRows) (cells : List Cell) : Except Fault TableRows :=
  let row := resolve c s.columns cells
  match nullColumn? c row with
  | some column => .error (.notNull (Schema.tableName c) column)
  | none =>
    match row with
    | digest :: seq :: incoming =>
      let key : RowKey := ⟨digest, seq⟩
      match Sorted.find? key t with
      | none => .ok (Sorted.insert key incoming t)
      | some stored =>
        if s.overwritten.isEmpty then .ok t
        else .ok (Sorted.insert key (overwrite c s.overwritten stored incoming) t)
    | _ => .ok t

/-- Runs a statement. -/
def run (s : Insert) (db : Database) : Except Fault Database :=
  match textFault? s with
  | some fault => .error fault
  | none =>
    match db.table? s.table with
    | none => .error (.noTable s.table)
    | some (c, t) =>
      match foreign? c s.columns with
      | some column => .error (.noColumn s.table column)
      | none =>
        if !targetFits s.keys then .error .conflictTarget
        else do
          let t ← s.rows.foldlM (put c s) t
          .ok ⟨Sorted.insert c t db.tables⟩

/-! ### Batches -/

/-- The statements of the records that have rows, with the places of the records from `index` on. -/
def statementsFrom (mode : ConflictMode) :
    Nat → List Record → Except MixedCollection (List (Nat × Insert))
  | _, [] => .ok []
  | index, r :: rest => do
    let s ← Insert.ofRecord mode r
    let later ← statementsFrom mode (index + 1) rest
    .ok (match s with
      | some s => (index, s) :: later
      | none => later)

/-- Runs statements in order, up to the first that fails. -/
def runAll : List (Nat × Insert) → Database → Except StorageError Database
  | [], db => .ok db
  | (index, s) :: rest, db =>
    match db.run s with
    | .ok db => runAll rest db
    | .error fault => .error (.statement index fault)

/-- Stores a batch as one transaction: a failure leaves the database as it was. All statements are built
before the first one runs. -/
def persist (mode : ConflictMode) (records : List Record) (db : Database) :
    Except StorageError Unit × Database :=
  match statementsFrom mode 0 records with
  | .error e => (.error (.mixedCollection e), db)
  | .ok statements =>
    match runAll statements db with
    | .ok stored => (.ok (), stored)
    | .error e => (.error e, db)

/-- The tables with rows, and the rows with key and data columns together, ascending by key. -/
def contents (db : Database) : List (String × List (List Cell)) :=
  (db.tables.filter fun t => !t.2.isEmpty).map fun t =>
    (Schema.tableName t.1, t.2.map fun r => r.1.digest :: r.1.seq :: r.2)

end Database

/-- A database that is written in one mode. -/
structure DatabaseStore where
  database : Database
  mode : ConflictMode
  deriving DecidableEq, Repr

namespace DatabaseStore

def persist (records : List Record) (s : DatabaseStore) : Except StorageError Unit × DatabaseStore :=
  let (result, database) := s.database.persist s.mode records
  (result, { s with database := database })

instance : BatchStore DatabaseStore := ⟨persist⟩

end DatabaseStore

end EventIntake
