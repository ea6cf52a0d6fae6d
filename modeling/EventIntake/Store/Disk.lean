import EventIntake.Config.Settings
import EventIntake.Store.Database
import EventIntake.Text.Hex

/-! Databases in files. -/
namespace EventIntake

/-- What a path leads to. -/
inductive DiskEntry
  | directory
  /-- A file that is no database. -/
  | other
  | database (db : Database)
  deriving DecidableEq, Repr

/-- The entries of a directory tree by the names on their path. -/
structure Disk where
  entries : List (List String × DiskEntry) := []
  deriving DecidableEq, Repr

/-- An open store: a file, or a database of its own that is gone once it is closed, and the mode. -/
structure DiskStore where
  path : Option (List String)
  own : Database := {}
  mode : Sql.ConflictMode
  deriving DecidableEq, Repr

namespace Disk

/-- The names on a path; a step up takes the last one away. -/
def names (path : String) : List String :=
  (path.splitOn "/").foldl (fun done part =>
    if part = "" ∨ part = "." then done
    else if part = ".." ∧ done ≠ [] then done.dropLast
    else done ++ [part]) []

/-- Whether a path can only be a directory. -/
def isDirectoryPath (path : String) : Bool :=
  match (path.splitOn "/").getLast? with
  | some last => last == "" || last == "." || last == ".."
  | none => true

def find? (names : List String) (d : Disk) : Option DiskEntry :=
  if names.isEmpty then some .directory else d.entries.lookup names

def put (names : List String) (e : DiskEntry) (d : Disk) : Disk :=
  ⟨(names, e) :: d.entries.filter fun entry => entry.1 ≠ names⟩

/-- Creates the directories of a path, the outermost first, unless a file is in the way. -/
def makeDirectories : (done left : List String) → Disk → Option Disk
  | _, [], d => some d
  | done, name :: left, d =>
    let here := done ++ [name]
    match d.find? here with
    | some .directory => makeDirectories here left d
    | some _ => none
    | none => makeDirectories here left (d.put here .directory)

/-- Replaces `%` and two digits by the byte they stand for; `none` if that is no text. -/
def percentDecode (path : String) : Option String :=
  String.fromUTF8? ⟨(bytes path.toUTF8.data.toList).toArray⟩
where
  digit? (b : UInt8) : Option Nat := Text.Hex.digit? (Char.ofNat b.toNat)
  bytes : List UInt8 → List UInt8
    | b :: high :: low :: later =>
      match b == 37, digit? high, digit? low with
      | true, some h, some l => UInt8.ofNat (16 * h + l) :: bytes later
      | _, _, _ => b :: bytes (high :: low :: later)
    | rest => rest

/-- A path without the scheme of an address before it. -/
def withoutScheme : List Char → List Char
  | 's' :: 'q' :: 'l' :: 'i' :: 't' :: 'e' :: ':' :: rest => withoutScheme rest
  | cs => cs

/-- Opens a database file, creating it and the directories above it, with every event table. A path
with a question mark is refused, as what follows that mark is read as options. -/
def openFile (path : String) (mode : Sql.ConflictMode) (d : Disk) :
    Except StorageError DiskStore × Disk :=
  match d.makeDirectories [] ((names path).dropLast) with
  | none => (.error .io, d)
  | some d =>
    let target := String.ofList (withoutScheme path.toList)
    if target = "" ∨ target = ":memory:" then
      (.ok { path := none, own := Database.create {}, mode := mode }, d)
    else if target.toList.contains '?' then (.error .database, d)
    else match percentDecode target with
      | none => (.error .database, d)
      | some file =>
        let parts := names file
        if isDirectoryPath file ∨ d.find? parts.dropLast ≠ some .directory then (.error .database, d)
        else match d.find? parts with
          | none => (.ok { path := some parts, mode := mode }, d.put parts (.database (Database.create {})))
          | some (.database db) =>
            (.ok { path := some parts, mode := mode }, d.put parts (.database db.create))
          | some _ => (.error .database, d)

/-- Opens the store that the settings name. -/
def openStore (s : Config.Storage) (d : Disk) : Except StorageError DiskStore × Disk :=
  match s.backend with
  | .sqlite => d.openFile s.sqlite.path (if s.upsert then .upsert else .ignore)
  | .postgres => (.error (.backendDisabled .postgres), d)

/-- The database in a file. -/
def database? (path : String) (d : Disk) : Option Database :=
  match d.find? (names path) with
  | some (.database db) => some db
  | _ => none

/-- Writes a file that is no database. -/
def writeOther (path : String) (d : Disk) : Disk := d.put (names path) .other

/-- Stores a batch through an open store. A file that is no database any more refuses it. -/
def persist (records : List Record) (s : DiskStore) (d : Disk) :
    Except StorageError Unit × DiskStore × Disk :=
  match s.path with
  | none =>
    let (result, own) := s.own.persist s.mode records
    (result, { s with own := own }, d)
  | some path =>
    match d.find? path with
    | some (.database db) =>
      let (result, db) := db.persist s.mode records
      (result, s, d.put path (.database db))
    | _ => (.error .database, s, d)

end Disk

end EventIntake
