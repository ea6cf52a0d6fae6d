import EventIntake.Store.Basic

/-! A store in memory that can be told to fail. -/
namespace EventIntake

/-- The committed batches, oldest first, the number of attempts, and the failures asked for: of every
batch, or of those with a row at a given place. -/
structure MemoryStore where
  batches : List (List Row) := []
  calls : Nat := 0
  failing : Bool := false
  failingRow : Option Nat := none
  deriving DecidableEq, Repr

namespace MemoryStore

/-- The failure that awaits a batch of `rows` rows. -/
def failure? (s : MemoryStore) (rows : Nat) : Option StorageError :=
  if s.failing then some (.unavailable "mock store failure")
  else match s.failingRow with
    | some k =>
      if k < rows then some (.unavailable ("mock store failure at row " ++ toString k)) else none
    | none => none

/-- Commits the rows of all records as one batch. A batch without rows leaves no trace but the call. -/
def persist (records : List Record) (s : MemoryStore) : Except StorageError Unit × MemoryStore :=
  let rows := records.flatten
  let called := { s with calls := s.calls + 1 }
  match s.failure? rows.length with
  | some e => (.error e, called)
  | none =>
    if rows.isEmpty then (.ok (), called)
    else (.ok (), { called with batches := s.batches ++ [rows] })

/-- Every committed row, oldest first. -/
def rows (s : MemoryStore) : List Row := s.batches.flatten

instance : BatchStore MemoryStore := ⟨persist⟩

end MemoryStore

end EventIntake
