import EventIntake.Proofs.Queue.Conservation

/-! A store that notes what it is given. -/
namespace EventIntake

/-- Passes batches on to another store and notes each, stored or not. -/
structure NotingStore (σ : Type) where
  store : σ
  noted : List (List Record) := []

namespace NotingStore
variable {σ : Type} [BatchStore σ]

def persist (records : List Record) (s : NotingStore σ) : Except StorageError Unit × NotingStore σ :=
  let (result, store) := BatchStore.persist records s.store
  (result, ⟨store, s.noted ++ [records]⟩)

instance : BatchStore (NotingStore σ) := ⟨persist⟩

theorem noted_persistAll (batches : List Batch) (s : NotingStore σ) :
    (BatchStore.persistAll batches s).noted = s.noted ++ batches.map Batch.records := by
  induction batches generalizing s with
  | nil => simp [BatchStore.persistAll]
  | cons b rest ih =>
    refine (ih (s.persist b.records).2).trans ?_
    simp [persist]

end NotingStore

end EventIntake
