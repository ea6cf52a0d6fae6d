import EventIntake.Store.Database
import EventIntake.Store.Memory

/-! Stores that keep nothing of a batch they fail to store. -/
namespace EventIntake

/-- A store with contents that a failed batch leaves alone. -/
class AllOrNothing (σ : Type) (κ : outParam Type) [BatchStore σ] where
  contents : σ → κ
  contents_of_error {records : List Record} {e : StorageError} {s s' : σ} :
    BatchStore.persist records s = (.error e, s') → contents s' = contents s

theorem MemoryStore.batches_of_error {records : List Record} {e : StorageError} {s s' : MemoryStore}
    (h : s.persist records = (.error e, s')) : s'.batches = s.batches := by
  simp only [persist] at h
  split at h
  · cases h
    rfl
  · split at h <;> cases h

theorem Database.eq_of_error {mode : Sql.ConflictMode} {records : List Record} {e : StorageError} {db db' : Database}
    (h : db.persist mode records = (.error e, db')) : db' = db := by
  simp only [persist] at h
  split at h
  · cases h
    rfl
  · split at h
    · cases h
    · cases h
      rfl

namespace AllOrNothing

/-- The committed batches. -/
instance : AllOrNothing MemoryStore (List (List Row)) := ⟨MemoryStore.batches, MemoryStore.batches_of_error⟩

/-- The tables. -/
instance : AllOrNothing DatabaseStore Database where
  contents := DatabaseStore.database
  contents_of_error {records e s s'} h := by
    have hpersist : s.database.persist s.mode records = (.error e, s'.database) := by
      have hfst : (s.database.persist s.mode records).1 = .error e := congrArg Prod.fst h
      have hsnd : (s.database.persist s.mode records).2 = s'.database := congrArg (fun r => r.2.database) h
      rw [← hfst, ← hsnd]
    exact Database.eq_of_error hpersist

end AllOrNothing

end EventIntake
