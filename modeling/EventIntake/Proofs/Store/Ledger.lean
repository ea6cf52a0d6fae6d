import EventIntake.Proofs.Queue.Conservation

/-! What stores answer to batches, and a store that keeps account of its answers. -/
namespace EventIntake

instance decidableEqExcept {ε α : Type} [DecidableEq ε] [DecidableEq α] : DecidableEq (Except ε α)
  | .ok a, .ok b => decidable_of_iff (a = b) ⟨congrArg Except.ok, Except.ok.inj⟩
  | .error e, .error f => decidable_of_iff (e = f) ⟨congrArg Except.error, Except.error.inj⟩
  | .ok _, .error _ | .error _, .ok _ => isFalse fun h => by cases h

/-- What a store answers to batches, one after the other. -/
def BatchStore.answers {σ : Type} [BatchStore σ] : List Batch → σ → List (Batch × Except StorageError Unit)
  | [], _ => []
  | b :: rest, s =>
    let (answer, s) := BatchStore.persist b.records s
    (b, answer) :: answers rest s

/-- A batch that a store was given, and its answer. -/
structure Ledger.Entry where
  records : List Record
  answer : Except StorageError Unit
  deriving DecidableEq

/-- Passes batches on to another store and keeps account of each with its answer. -/
structure Ledger (σ : Type) where
  store : σ
  entries : List Ledger.Entry := []

namespace Ledger
variable {σ : Type} [BatchStore σ]

def persist (records : List Record) (s : Ledger σ) : Except StorageError Unit × Ledger σ :=
  let (answer, store) := BatchStore.persist records s.store
  (answer, ⟨store, s.entries ++ [⟨records, answer⟩]⟩)

instance : BatchStore (Ledger σ) := ⟨persist⟩

theorem entries_persistAll (batches : List Batch) (s : Ledger σ) :
    (BatchStore.persistAll batches s).entries =
      s.entries ++ (BatchStore.answers batches s).map fun a => ⟨a.1.records, a.2⟩ := by
  induction batches generalizing s with
  | nil => simp [BatchStore.persistAll, BatchStore.answers]
  | cons b rest ih =>
    refine (ih (s.persist b.records).2).trans ?_
    simp [BatchStore.answers, BatchStore.persist, persist]

/-- Every batch was stored. -/
def Flawless (s : Ledger σ) : Prop := ∀ e ∈ s.entries, e.answer = .ok ()

instance (s : Ledger σ) : Decidable s.Flawless :=
  inferInstanceAs (Decidable (∀ e ∈ s.entries, e.answer = .ok ()))

theorem Flawless.of_persistAll {batches : List Batch} {s : Ledger σ}
    (h : (BatchStore.persistAll batches s).Flawless) : s.Flawless := by
  intro e he
  refine h e ?_
  rw [entries_persistAll]
  exact List.mem_append_left _ he

theorem Flawless.persist_ok {records : List Record} {s : Ledger σ}
    (h : (BatchStore.persist records s).2.Flawless) : (BatchStore.persist records s).1 = .ok () :=
  h ⟨records, (BatchStore.persist records s.store).1⟩ (by simp [BatchStore.persist, persist])

end Ledger

namespace Queue
open Event

variable {σ : Type} [BatchStore σ]

theorem map_fst_answers (batches : List Batch) (s : σ) :
    (BatchStore.answers batches s).map Prod.fst = batches := by
  induction batches generalizing s with
  | nil => rfl
  | cons b rest ih => exact congrArg (b :: ·) (ih _)

/-- The buffers of a queue are stored in the order of their subscriptions. -/
theorem ascending_answers {q : Queue} (hs : q.Sound) (s : σ) :
    (BatchStore.answers q.close.1 s).Pairwise fun a b => a.1.subscription < b.1.subscription := by
  have hids : q.close.1.Pairwise fun a b => a.subscription < b.subscription := List.pairwise_map.mpr hs.ascending
  rwa [← map_fst_answers q.close.1 s, List.pairwise_map] at hids

/-- The error that stands for a batch which was not stored. -/
def lost? : Batch × Except StorageError Unit → Option QueueError
  | (b, .error e) => some (.flush b.subscription b.records.length e)
  | (_, .ok ()) => none

theorem lost?_eq_none_iff (a : Batch × Except StorageError Unit) : lost? a = none ↔ a.2 = .ok () := by
  obtain ⟨b, e | u⟩ := a <;> simp [lost?]

/-- The first lost batch is the one reported. -/
theorem flushAll_fst (batches : List Batch) (s : σ) :
    (flushAll batches s).1 =
      match (BatchStore.answers batches s).findSome? lost? with
      | some e => .error e
      | none => .ok () := by
  induction batches generalizing s with
  | nil => rfl
  | cons b rest ih =>
    simp only [flushAll, flush, BatchStore.answers]
    rcases BatchStore.persist b.records s with ⟨e | _, s'⟩
    · rfl
    · simp only [ih, List.findSome?_cons, lost?]

/-- Among batches of ascending subscriptions, the first lost one has the smallest. -/
theorem exists_smallest_lost {answers : List (Batch × Except StorageError Unit)} {e : QueueError}
    (ha : answers.Pairwise fun a b => a.1.subscription < b.1.subscription)
    (h : answers.findSome? lost? = some e) :
    ∃ a ∈ answers, lost? a = some e ∧
      ∀ b ∈ answers, b.2 ≠ .ok () → a.1.subscription ≤ b.1.subscription := by
  obtain ⟨before, a, after, rfl, hlost, hbefore⟩ := List.findSome?_eq_some_iff.mp h
  refine ⟨a, by simp, hlost, fun b hb hfailed => ?_⟩
  have hmem := List.mem_append.mp hb
  rcases hmem with hb | hb
  · exact absurd ((lost?_eq_none_iff b).mp (hbefore b hb)) hfailed
  · obtain ⟨hafter, _⟩ := List.pairwise_cons.mp (List.pairwise_append.mp ha).2.1
    rcases List.mem_cons.mp hb with rfl | hb
    · exact UInt64.le_refl _
    · exact UInt64.le_of_lt (hafter b hb)

end Queue

end EventIntake
