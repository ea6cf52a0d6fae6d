import EventIntake.Proofs.Queue.Conservation
import EventIntake.Store.Memory

/-! A store in memory that was told no failure commits every batch. -/
namespace EventIntake.MemoryStore

/-- No failure was asked for. -/
structure Working (s : MemoryStore) : Prop where
  failing : s.failing = false
  failingRow : s.failingRow = none

namespace Working
variable {s : MemoryStore}

theorem failure? (h : s.Working) (rows : Nat) : s.failure? rows = none := by
  simp [MemoryStore.failure?, h.failing, h.failingRow]

theorem persist_ok (h : s.Working) (records : List Record) : (s.persist records).1 = .ok () := by
  simp only [MemoryStore.persist, h.failure?]
  split <;> rfl

theorem persist (h : s.Working) (records : List Record) : (s.persist records).2.Working := by
  simp only [MemoryStore.persist, h.failure?]
  split <;> exact ⟨h.failing, h.failingRow⟩

theorem rows_persist (h : s.Working) (records : List Record) :
    (s.persist records).2.rows = s.rows ++ records.flatten := by
  simp only [MemoryStore.persist, h.failure?]
  split
  · rename_i he
    simp [rows, List.isEmpty_iff.mp he]
  · simp [rows]

theorem persistAll (h : s.Working) (batches : List Batch) :
    Working (BatchStore.persistAll batches s) := by
  induction batches generalizing s with
  | nil => exact h
  | cons b rest ih => exact ih (h.persist b.records)

theorem rows_persistAll (h : s.Working) (batches : List Batch) :
    (BatchStore.persistAll batches s).rows = s.rows ++ (Queue.labelled batches).flatMap Prod.snd := by
  induction batches generalizing s with
  | nil => simp [BatchStore.persistAll, Queue.labelled]
  | cons b rest ih =>
    have hb : (b.records.map (Prod.mk b.subscription)).flatMap Prod.snd = b.records.flatten := by
      simp [List.flatMap_map]
    change (BatchStore.persistAll rest (s.persist b.records).2).rows = _
    rw [ih (h.persist b.records), h.rows_persist, List.append_assoc, Queue.labelled_cons,
      List.flatMap_append, hb]

end Working

end EventIntake.MemoryStore
