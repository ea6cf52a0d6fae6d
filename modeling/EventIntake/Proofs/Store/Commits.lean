import EventIntake.Proofs.Queue.Independence
import EventIntake.Proofs.Queue.Runs
import EventIntake.Proofs.Store.Ledger
import Mathlib.Algebra.GroupWithZero.Nat
import Mathlib.Data.List.Induction

/-! A store in memory commits a batch whole or not at all, whatever failures it is told and when. -/
namespace EventIntake
open Event

namespace BatchStore

/-- What was given to a store and not answered with an error. -/
def stored {α : Type} (given : List (α × Except StorageError Unit)) : List α :=
  (given.filter fun a => a.2.isOk).map Prod.fst

theorem stored_append {α : Type} (given later : List (α × Except StorageError Unit)) :
    stored (given ++ later) = stored given ++ stored later := by
  simp [stored]

end BatchStore

namespace MemoryStore
open BatchStore (stored stored_append)

/-! ### One batch -/

/-- The failures that a store was told. -/
structure Failures where
  all : Bool := false
  row : Option Nat := none
  deriving DecidableEq, Repr

/-- All batches fail, or those with a row at a given place. -/
def Failures.Hit (f : Failures) (records : List Record) : Prop :=
  f.all = true ∨ ∃ k, f.row = some k ∧ k < (records.map List.length).sum

def failures (s : MemoryStore) : Failures := ⟨s.failing, s.failingRow⟩

/-- The batch that is committed of records, if they have rows. -/
def committed (records : List Record) : List (List Row) :=
  if records.flatten = [] then [] else [records.flatten]

theorem flatten_committed (records : List Record) : (committed records).flatten = records.flatten := by
  rw [committed]
  split
  · rename_i he
    rw [he]
    rfl
  · exact List.flatten_singleton

theorem flatten_flatMap_committed {α : Type} (l : List α) (records : α → List Record) :
    (l.flatMap fun a => committed (records a)).flatten = l.flatMap fun a => (records a).flatten := by
  induction l with
  | nil => rfl
  | cons a l ih => simp [flatten_committed, ih]

theorem isSome_failure? (s : MemoryStore) (records : List Record) :
    (s.failure? records.flatten.length).isSome = true ↔ s.failures.Hit records := by
  rw [List.length_flatten, failure?, failures, Failures.Hit]
  cases s.failing with
  | true => simp
  | false =>
    cases s.failingRow with
    | none => simp
    | some k => by_cases hlt : k < (records.map List.length).sum <;> simp [hlt]

/-- A batch is counted, and committed unless a failure hits it. -/
theorem persist_cases (s : MemoryStore) (records : List Record) :
    (s.failures.Hit records ∧ ∃ e, s.persist records = (.error e, { s with calls := s.calls + 1 })) ∨
      (¬ s.failures.Hit records ∧ s.persist records =
        (.ok (), { s with calls := s.calls + 1, batches := s.batches ++ committed records })) := by
  rw [← isSome_failure?, persist]
  cases s.failure? records.flatten.length with
  | some e => exact .inl ⟨rfl, e, rfl⟩
  | none =>
    refine .inr ⟨by simp, ?_⟩
    by_cases he : records.flatten = []
    · simp [he, committed]
    · simp [he, committed]

theorem failures_persist (s : MemoryStore) (records : List Record) :
    (s.persist records).2.failures = s.failures := by
  rcases s.persist_cases records with ⟨_, e, h⟩ | ⟨_, h⟩ <;> rw [h] <;> rfl

theorem isOk_persist_eq_false_iff (s : MemoryStore) (records : List Record) :
    (s.persist records).1.isOk = false ↔ s.failures.Hit records := by
  rcases s.persist_cases records with ⟨hhit, e, h⟩ | ⟨hhit, h⟩ <;> simp [h, hhit, Except.isOk, Except.toBool]

theorem batches_persist_of_error {s : MemoryStore} {records : List Record}
    (he : (s.persist records).1.isOk = false) : (s.persist records).2.batches = s.batches := by
  rcases s.persist_cases records with ⟨_, e, h⟩ | ⟨_, h⟩
  · rw [h]
  · rw [h] at he
    cases he

theorem batches_persist_of_ok {s : MemoryStore} {records : List Record}
    (hok : (s.persist records).1.isOk = true) : (s.persist records).2.batches = s.batches ++ committed records := by
  rcases s.persist_cases records with ⟨_, e, h⟩ | ⟨_, h⟩
  · rw [h] at hok
    cases hok
  · rw [h]

theorem batches_persist (s : MemoryStore) (records : List Record) :
    (s.persist records).2.batches =
      s.batches ++ (stored [(records, (s.persist records).1)]).flatMap committed := by
  cases hok : (s.persist records).1.isOk with
  | true => simp [batches_persist_of_ok hok, stored, hok]
  | false => simp [batches_persist_of_error hok, stored, hok]

theorem calls_persist (s : MemoryStore) (records : List Record) :
    (s.persist records).2.calls = s.calls + 1 := by
  rcases s.persist_cases records with ⟨_, e, h⟩ | ⟨_, h⟩ <;> rw [h]

/-! ### Batches and settings in any order -/

/-- A failure that a store is told, or told no longer. -/
inductive Setting
  | all (on : Bool)
  | row (place : Option Nat)
  deriving DecidableEq, Repr

namespace Setting

def change (setting : Setting) (f : Failures) : Failures :=
  match setting with
  | all on => { f with all := on }
  | row place => { f with row := place }

def apply (setting : Setting) (s : MemoryStore) : MemoryStore :=
  let f := setting.change s.failures
  { s with failing := f.all, failingRow := f.row }

end Setting

/-- The failures that are left after settings in order. -/
def inForce (settings : List Setting) : Failures := settings.foldl (fun f setting => setting.change f) {}

/-- What can be done to a store. -/
inductive Use
  | persist (records : List Record)
  | set (setting : Setting)
  deriving DecidableEq, Repr

namespace Use

def setting? : Use → Option Setting
  | persist _ => none
  | set setting => some setting

def records? : Use → Option (List Record)
  | persist records => some records
  | set _ => none

end Use

/-- A store with the batches that it was given, each with its answer. -/
structure History where
  given : List (List Record × Except StorageError Unit) := []
  store : MemoryStore := {}

def Use.run (use : Use) (h : History) : History :=
  match use with
  | persist records =>
    let (answer, s) := h.store.persist records
    ⟨h.given ++ [(records, answer)], s⟩
  | set setting => { h with store := setting.apply h.store }

/-- A new store after uses in order. -/
def after (uses : List Use) : History := uses.foldl (fun h use => use.run h) {}

theorem after_concat (uses : List Use) (use : Use) : after (uses ++ [use]) = use.run (after uses) :=
  List.foldl_append

/-- The failures are those told last, whatever batches were given meanwhile. -/
theorem failures_after (uses : List Use) : (after uses).store.failures = inForce (uses.filterMap Use.setting?) := by
  induction uses using List.reverseRecOn with
  | nil => rfl
  | append_singleton uses use ih =>
    rw [after_concat, List.filterMap_append]
    cases use with
    | persist records =>
      rw [List.filterMap_cons_none rfl, List.filterMap_nil, List.append_nil]
      exact (failures_persist _ records).trans ih
    | set setting =>
      have hset : (setting.apply (after uses).store).failures = setting.change (after uses).store.failures := rfl
      have htold : [Use.set setting].filterMap Use.setting? = [setting] := rfl
      rw [htold, inForce, List.foldl_append]
      exact hset.trans (congrArg setting.change ih)

/-- Every batch is counted, and just the stored ones are committed. -/
theorem committed_after (uses : List Use) :
    (after uses).given.map Prod.fst = uses.filterMap Use.records? ∧
      (after uses).store.calls = (after uses).given.length ∧
      (after uses).store.batches = (stored (after uses).given).flatMap committed := by
  induction uses using List.reverseRecOn with
  | nil => exact ⟨rfl, rfl, rfl⟩
  | append_singleton uses use ih =>
    obtain ⟨hgiven, hcalls, hbatches⟩ := ih
    rw [after_concat, List.filterMap_append]
    cases use with
    | persist records =>
      refine ⟨by simp [Use.run, hgiven, Use.records?], ?_, ?_⟩
      · simpa [Use.run, hcalls] using calls_persist (after uses).store records
      · refine (batches_persist _ records).trans ?_
        rw [hbatches, ← List.flatMap_append, ← stored_append]
        rfl
    | set setting =>
      rw [List.filterMap_cons_none rfl, List.filterMap_nil, List.append_nil]
      exact ⟨hgiven, hcalls, hbatches⟩

end MemoryStore

namespace Queue
open BatchStore (stored stored_append)

/-! ### In front of the store -/

/-- What can happen to a queue and the store behind it. -/
inductive Turn
  | call (c : Call)
  | set (setting : MemoryStore.Setting)
  deriving DecidableEq, Repr

def Turn.setting? : Turn → Option MemoryStore.Setting
  | call _ => none
  | set setting => some setting

/-- A queue and the store behind it, with the calls and the batches so far, each with its answer. -/
structure Play where
  called : List (Call × Answer) := []
  given : List (Batch × Except StorageError Unit) := []
  queue : Queue
  store : MemoryStore := {}

def Turn.run (turn : Turn) (p : Play) : Play :=
  match turn with
  | call c =>
    let (answer, q, s) := c.run p.queue p.store
    ⟨p.called ++ [(c, answer)], p.given ++ BatchStore.answers (c.handed p.queue) p.store, q, s⟩
  | set setting => { p with store := setting.apply p.store }

/-- A new queue and a new store after turns in order. -/
def play (threshold : Nat) (turns : List Turn) : Play :=
  turns.foldl (fun p turn => turn.run p) { queue := new threshold }

theorem play_concat (threshold : Nat) (turns : List Turn) (turn : Turn) :
    play threshold (turns ++ [turn]) = turn.run (play threshold turns) :=
  List.foldl_append

theorem failures_persistAll (batches : List Batch) (s : MemoryStore) :
    (BatchStore.persistAll batches s).failures = s.failures := by
  obtain ⟨hall, hrow⟩ := MemoryStore.failures_persistAll batches s
  simp [MemoryStore.failures, hall, hrow]

theorem batches_persistAll (batches : List Batch) (s : MemoryStore) :
    (BatchStore.persistAll batches s).batches =
      s.batches ++ (stored (BatchStore.answers batches s)).flatMap fun b => MemoryStore.committed b.records := by
  induction batches generalizing s with
  | nil => simp [BatchStore.persistAll, BatchStore.answers, stored]
  | cons b rest ih =>
    have hfirst : (stored [(b.records, (s.persist b.records).1)]).flatMap MemoryStore.committed =
        (stored [(b, (s.persist b.records).1)]).flatMap fun b => MemoryStore.committed b.records := by
      cases h : (s.persist b.records).1 <;> simp [stored, Except.isOk, Except.toBool]
    calc
      (BatchStore.persistAll (b :: rest) s).batches = (BatchStore.persistAll rest (s.persist b.records).2).batches := rfl
      _ = _ := by
        rw [ih, MemoryStore.batches_persist, hfirst, List.append_assoc, ← List.flatMap_append, ← stored_append]
        rfl

/-- Whether a batch fails depends on the failures of the store alone. -/
theorem isOk_answers {batches : List Batch} {s : MemoryStore} {a : Batch × Except StorageError Unit}
    (ha : a ∈ BatchStore.answers batches s) : a.2.isOk = false ↔ s.failures.Hit a.1.records := by
  induction batches generalizing s with
  | nil => cases ha
  | cons b rest ih =>
    rcases List.mem_cons.mp ha with rfl | ha
    · exact s.isOk_persist_eq_false_iff b.records
    · exact s.failures_persist b.records ▸ ih ha

/-- What holds of a queue and its store after any turns. -/
structure Play.Kept (p : Play) (settings : List MemoryStore.Setting) : Prop where
  sound : p.queue.Sound
  failures : p.store.failures = MemoryStore.inForce settings
  committed : p.store.batches = (stored p.given).flatMap fun b => MemoryStore.committed b.records
  conserved : ∀ id, recordsOf id (p.given.map Prod.fst) ++ p.queue.pending id = p.called.filterMap (accepted? id)

theorem Play.Kept.turn {p : Play} {settings : List MemoryStore.Setting} (h : p.Kept settings) (turn : Turn) :
    (turn.run p).Kept (settings ++ turn.setting?.toList) := by
  cases turn with
  | call c =>
    have hstate := c.run_state p.queue p.store
    have hqueue : (c.run p.queue p.store).2.1 = c.next p.queue := congrArg Prod.fst hstate
    have hstore : (c.run p.queue p.store).2.2 = BatchStore.persistAll (c.handed p.queue) p.store :=
      congrArg Prod.snd hstate
    refine ⟨(congrArg Sound hqueue).mpr (c.sound_next h.sound), ?_, ?_, fun id => ?_⟩
    · have hfailures := (failures_persistAll (c.handed p.queue) p.store).trans h.failures
      simpa [Turn.run, Turn.setting?, hstore] using hfailures
    · have hbatches := batches_persistAll (c.handed p.queue) p.store
      rw [h.committed, ← List.flatMap_append, ← stored_append] at hbatches
      simpa [Turn.run, hstore] using hbatches
    · have hconserves := c.conserves h.sound id
      have haccepted := c.accepted?_run p.queue p.store id
      simp only [Turn.run, hqueue, List.map_append, map_fst_answers, recordsOf_append, List.append_assoc, hconserves,
        List.filterMap_append]
      rw [← List.append_assoc, h.conserved, ← haccepted]
      cases ha : accepted? id (c, (c.run p.queue p.store).1) <;> simp [ha]
  | set setting =>
    refine ⟨h.sound, ?_, h.committed, h.conserved⟩
    have hset : (setting.apply p.store).failures = setting.change p.store.failures := rfl
    simpa [Turn.run, Turn.setting?, MemoryStore.inForce, h.failures] using hset

theorem kept_play (threshold : Nat) (turns : List Turn) :
    (play threshold turns).Kept (turns.filterMap Turn.setting?) := by
  induction turns using List.reverseRecOn with
  | nil => exact ⟨sound_new threshold, rfl, rfl, fun id => rfl⟩
  | append_singleton turns turn ih =>
    rw [play_concat, List.filterMap_append]
    have hlast := ih.turn turn
    cases hs : turn.setting? <;> simp_all

end Queue

/-- A new store was given batches and told failures in any order. The next batch is counted. It fails just if the
failures told last hit it, and then nothing of it is committed; else all its rows are committed as one batch, in order,
if it has any. What is committed at any time are the rows of the batches that did not fail. So it is with a new queue
in front of the store: of the records that the queue accepted, each was given to the store once or waits, and nothing
of a batch that failed is committed, then or later. -/
theorem MemoryStore.commits_whole_batches :
    (∀ (uses : List Use) (records : List Record),
      let h := after uses
      let told := inForce (uses.filterMap Use.setting?)
      let (answer, s) := h.store.persist records
      s.calls = h.store.calls + 1 ∧
        (answer.isOk = false ↔ told.all = true ∨ ∃ k, told.row = some k ∧ k < (records.map List.length).sum) ∧
        (answer.isOk = false → s.batches = h.store.batches) ∧
        (answer.isOk = true →
          s.batches = h.store.batches ++ if records.flatten = [] then [] else [records.flatten]) ∧
        h.given.map Prod.fst = uses.filterMap Use.records? ∧
        h.store.calls = h.given.length ∧
        h.store.rows = (BatchStore.stored h.given).flatMap List.flatten) ∧
    ∀ (threshold : Nat) (turns : List Queue.Turn) (c : Queue.Call),
      let p := Queue.play threshold turns
      let told := inForce (turns.filterMap Queue.Turn.setting?)
      p.store.rows = (BatchStore.stored p.given).flatMap (fun b => b.records.flatten) ∧
        (∀ id, Queue.recordsOf id (p.given.map Prod.fst) ++ p.queue.pending id =
          p.called.filterMap (Queue.accepted? id)) ∧
        ∃ answers, (Queue.play threshold (turns ++ [.call c])).given = p.given ++ answers ∧
          answers.map Prod.fst = c.handed p.queue ∧
          ∀ a ∈ answers, a.2.isOk = false ↔
            told.all = true ∨ ∃ k, told.row = some k ∧ k < (a.1.records.map List.length).sum := by
  refine ⟨fun uses records => ?_, fun threshold turns c => ?_⟩
  · obtain ⟨hgiven, hcalls, hbatches⟩ := committed_after uses
    have hfails := isOk_persist_eq_false_iff (after uses).store records
    rw [failures_after] at hfails
    refine ⟨calls_persist _ records, hfails, fun herror => ?_, fun hok => ?_, hgiven, hcalls, ?_⟩
    · exact batches_persist_of_error herror
    · exact batches_persist_of_ok hok
    · exact (congrArg List.flatten hbatches).trans (flatten_flatMap_committed _ id)
  · obtain ⟨_, hfailures, hcommitted, hconserved⟩ := Queue.kept_play threshold turns
    intro p told
    have hlast : (Queue.play threshold (turns ++ [.call c])).given =
        p.given ++ BatchStore.answers (c.handed p.queue) p.store := by
      rw [Queue.play_concat]
      rfl
    refine ⟨(congrArg List.flatten hcommitted).trans (flatten_flatMap_committed _ Batch.records), hconserved,
      _, hlast, Queue.map_fst_answers _ _, fun a ha => ?_⟩
    have hfails := Queue.isOk_answers ha
    rwa [hfailures] at hfails

end EventIntake
