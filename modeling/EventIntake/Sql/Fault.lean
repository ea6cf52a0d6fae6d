/-! Why a database refuses a statement. -/
namespace EventIntake.Sql

inductive Fault
  | unrecognizedToken (token : String)
  | emptyColumnList
  | noTable (table : String)
  | noColumn (table column : String)
  | conflictTarget
  | notNull (table column : String)
  deriving DecidableEq, Repr

namespace Fault

/-- The result code of the database. -/
def code : Fault → Nat
  | .notNull _ _ => 1299
  | _ => 1

def text : Fault → String
  | .unrecognizedToken token => "unrecognized token: \"" ++ token ++ "\""
  | .emptyColumnList => "near \")\": syntax error"
  | .noTable table => "no such table: " ++ table
  | .noColumn table column => "table " ++ table ++ " has no column named " ++ column
  | .conflictTarget => "ON CONFLICT clause does not match any PRIMARY KEY or UNIQUE constraint"
  | .notNull table column => "NOT NULL constraint failed: " ++ table ++ "." ++ column

def message (f : Fault) : String :=
  "error returned from database: (code: " ++ toString f.code ++ ") " ++ f.text

end Fault

end EventIntake.Sql
