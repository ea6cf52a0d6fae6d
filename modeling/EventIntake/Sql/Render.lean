import EventIntake.Record.Schema
import EventIntake.Sql.Insert

/-! Statements as text. -/
namespace EventIntake.Sql
open Event

inductive Dialect
  | sqlite
  | postgres
  deriving DecidableEq, Repr

namespace Render

/-- Writes a quote twice. -/
def doubled (quote : Char) (cs : List Char) : List Char :=
  cs.flatMap fun c => if c = quote then [c, c] else [c]

/-- A name in double quotes. -/
def name (s : String) : List Char := '"' :: doubled '"' s.toList ++ ['"']

/-- Characters that an escaping literal writes with a backslash. -/
def backslashed? (c : Char) : Option Char :=
  if c = '\\' ∨ c = '"' ∨ c = '\'' then some c
  else if c.toNat = 0 then some '0'
  else if c.toNat = 8 then some 'b'
  else if c = '\t' then some 't'
  else if c.toNat = 0x1A then some 'z'
  else if c = '\n' then some 'n'
  else if c = '\r' then some 'r'
  else none

def backslashes (cs : List Char) : List Char :=
  cs.flatMap fun c => match backslashed? c with
    | some d => ['\\', d]
    | none => [c]

/-- A text literal. -/
def literal (d : Dialect) (s : String) : List Char :=
  match d with
  | .sqlite => '\'' :: doubled '\'' s.toList ++ ['\'']
  | .postgres =>
    let body := '\'' :: backslashes s.toList ++ ['\'']
    if s.toList.any fun c => (backslashed? c).isSome then 'E' :: body else body

def cell (d : Dialect) : Cell → List Char
  | .int n => (toString n.toInt).toList
  | .text s => literal d s
  | .null => ['N', 'U', 'L', 'L']

/-- Parts with a comma and a blank between them. -/
def listed (parts : List (List Char)) : List Char := [',', ' '].intercalate parts

def bracketed (parts : List (List Char)) : List Char := '(' :: listed parts ++ [')']

def values (d : Dialect) (rows : List (List Cell)) : List Char :=
  if rows.all List.isEmpty then []
  else " VALUES ".toList ++ listed (rows.map fun r => bracketed (r.map (cell d)))

/-- What happens on a conflict; without keys the conflict has no target. -/
def onConflict (s : Insert) : List Char :=
  " ON CONFLICT ".toList ++ (if s.keys.isEmpty then [] else bracketed (s.keys.map name)) ++
    if s.overwritten.isEmpty then " DO NOTHING".toList
    else " DO UPDATE SET ".toList ++
      listed (s.overwritten.map fun c => name c ++ " = \"excluded\".".toList ++ name c)

def insert (d : Dialect) (s : Insert) : String :=
  String.ofList ("INSERT INTO ".toList ++ name s.table ++ ' ' :: bracketed (s.columns.map name) ++
    values d s.rows ++ onConflict s)

def kind : Schema.ColumnKind → List Char
  | .text => "text".toList
  | .bigInt => "bigint".toList

/-- The definition of a table, the same in both dialects. -/
def createTable (c : Category) : String :=
  String.ofList ("CREATE TABLE IF NOT EXISTS ".toList ++ name (Schema.tableName c) ++ " ( ".toList ++
    listed ((Schema.columns c).map (fun col => name col.1 ++ ' ' :: kind col.2 ++ " NOT NULL".toList) ++
      ["PRIMARY KEY ".toList ++ bracketed (Schema.keyColumns.map fun col => name col.1)]) ++
    " )".toList)

end Render

end EventIntake.Sql
