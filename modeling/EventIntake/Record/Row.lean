/-! Rows on their way to storage. -/
namespace EventIntake

/-- A value of a column. -/
inductive Cell
  | int (n : Int64)
  | text (s : String)
  | null
  deriving DecidableEq, Repr

/-- Columns by name, in the order they were given. -/
abbrev Columns := List (String × Cell)

/-- A row of a table: what identifies it, and what it holds. -/
structure Row where
  table : String
  keys : Columns
  data : Columns
  deriving DecidableEq, Repr

/-- The rows that are stored by one statement. They should be of one table. -/
abbrev Record := List Row

end EventIntake
