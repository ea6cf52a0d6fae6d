import EventIntake.Sql.Fault
import EventIntake.Sql.Insert

/-! Stores of records. -/
namespace EventIntake

/-- The kinds of database that settings can name. -/
inductive Backend
  | sqlite
  | postgres
  deriving DecidableEq, Repr

def Backend.name : Backend → String
  | sqlite => "sqlite"
  | postgres => "postgres"

/-- Why a batch was not stored or a store was not opened. -/
inductive StorageError
  | database
  | io
  | statement (index : Nat) (fault : Sql.Fault)
  | mixedCollection (e : Sql.MixedCollection)
  | backendDisabled (backend : Backend)
  | unavailable (reason : String)
  deriving DecidableEq, Repr

def StorageError.message : StorageError → String
  | database => "Database error"
  | io => "I/O error"
  | statement index fault =>
    "Statement for record " ++ toString index ++ " failed: " ++ fault.message
  | mixedCollection e => e.message
  | backendDisabled backend =>
    "Storage backend '" ++ backend.name ++ "' is not enabled in this build"
  | unavailable reason => "Storage unavailable: " ++ reason

/-- A store takes a batch of records and tells whether it was stored. -/
class BatchStore (σ : Type) where
  persist : List Record → σ → Except StorageError Unit × σ

end EventIntake
