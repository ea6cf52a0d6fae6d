import EventIntake.Proofs.Sink.Agreement
import EventIntake.Proofs.Store.Interleaving
import EventIntake.Proofs.Subscription.Outline

/-! How many records are stored together makes no difference to what is stored in the end, nor to any answer, as
long as every batch is stored. -/
namespace EventIntake.EventSink
open Event Sql Subscription

variable {σ τ : Type}

/-- A sink without its records. -/
def outline (s : EventSink σ τ) : EventSink VoidStore τ :=
  ⟨{ s.settings with flushThreshold := 1 }, s.manager.outline⟩

section Outline
variable [BatchStore σ] [Node τ]

theorem Step.run_outline {step : Step} {s : EventSink (Ledger σ) τ}
    (h : (step.run s).2.manager.intake.Flawless) :
    step.run s.outline = ((step.run s).1, (step.run s).2.outline) ∧ step.moves s.outline = step.moves s := by
  cases step with
  | start =>
    obtain ⟨hrun, hmoves⟩ := Manager.subscribeAll_outline s.settings.subscribeRetries.toNat
      s.settings.eventTypes s.manager
    have hrun : s.outline.manager.subscribeAll s.outline.settings.subscribeRetries.toNat
      s.outline.settings.eventTypes = _ := hrun
    exact ⟨by simp only [run, EventSink.start, hrun]; rfl, hmoves⟩
  | subscribe c =>
    have hrun : s.outline.manager.subscribe c = _ := Manager.subscribe_outline c s.manager
    exact ⟨by simp only [run, hrun]; rfl, rfl⟩
  | subscribeWithRetry c retries =>
    obtain ⟨hrun, hmoves⟩ := Manager.subscribeWithRetry_outline c retries s.manager
    have hrun : s.outline.manager.subscribeWithRetry c retries = _ := hrun
    exact ⟨by simp only [run, hrun]; rfl, hmoves⟩
  | unsubscribe c =>
    have hrun : s.outline.manager.unsubscribe c = _ := Manager.unsubscribe_outline c h
    exact ⟨by simp only [run, hrun]; rfl, rfl⟩
  | push id raw =>
    have hrun : s.outline.manager.push id raw = _ := Manager.push_outline id raw h
    exact ⟨by simp only [run, hrun]; rfl, rfl⟩
  | notify raw =>
    have hrun : s.outline.manager.notify raw = _ := Manager.notify_outline raw h
    exact ⟨by simp only [run, hrun]; rfl, rfl⟩
  | shutdown =>
    obtain ⟨hrun, hmoves⟩ := Manager.shutdown_outline h
    have hrun : s.outline.manager.shutdown = _ := hrun
    exact ⟨by simp only [run, hrun]; rfl, hmoves⟩

theorem runAll_outline {steps : List Step} {s : EventSink (Ledger σ) τ}
    (h : (runAll steps s).2.manager.intake.Flawless) :
    runAll steps s.outline = ((runAll steps s).1, (runAll steps s).2.outline) ∧
      movesAll steps s.outline = movesAll steps s := by
  induction steps generalizing s with
  | nil => exact ⟨rfl, rfl⟩
  | cons step rest ih =>
    have hrest : (runAll rest (step.run s).2).2.manager.intake.Flawless := h
    obtain ⟨hruns, hmovesAll⟩ := ih hrest
    rw [runAll_eq_after] at hrest
    obtain ⟨hrun, hmoves⟩ := step.run_outline (Manager.flawless_of_after hrest)
    exact ⟨by simp only [runAll, hrun, hruns], by simp only [movesAll, hrun, hmoves, hmovesAll]⟩

/-- The records that come in during a run are those of its outline. -/
theorem filesAll_outline {steps : List Step} {s : EventSink (Ledger σ) τ}
    (h : (runAll steps s).2.manager.intake.Flawless) :
    Manager.filesAll (movesAll steps s.outline) s.outline.manager = Manager.filesAll (movesAll steps s) s.manager := by
  rw [(runAll_outline h).2]
  rw [runAll_eq_after] at h
  exact Manager.filesAll_outline h

end Outline

section Stored
variable [Node τ]

/-- A new sink that was shut down without a failure has stored every record that came in, in the order of
each table. -/
theorem ran_runAll (settings : Config.Ingest) (node : τ) (store : DatabaseStore) (rules : Option Rules.Book)
    {steps : List Step} (hsteps : .shutdown ∈ steps) :
    let first := new settings node (⟨store, []⟩ : Ledger DatabaseStore) rules
    let last := (runAll steps first).2.manager.intake
    last.Flawless → last.store.store.mode = store.mode ∧
      ∃ records, Database.Ran store.mode records store.database last.store.store.database ∧
        (∀ r ∈ records, ∃ c, Record.InTable c r) ∧
        ∀ c, recordsIn c records = tableRecords c (Manager.filesAll (movesAll steps first) first.manager) := by
  intro first last h
  obtain ⟨_, hcoherent, hshut⟩ :=
    took_runAll (coherent_new settings node (⟨store, []⟩ : Ledger DatabaseStore) rules) steps
  have hempty : last.queue.buffers = [] :=
    hcoherent.sound.closed_empty (hcoherent.shutDown.symm.trans (hshut.mpr (.inr hsteps)))
  have hfiled : first.manager.Filed :=
    ⟨Queue.sound_new _, by simp [Intake.Matched, first, new],
      by simp [first, new, Queue.new, Queue.pending, Sorted.find?]⟩
  obtain ⟨batches, hstore, hin, htables⟩ :=
    Manager.tables_after hfiled (complete_new settings node _ rules).agrees (movesAll steps first)
  rw [← runAll_eq_after] at hstore htables
  have hlast : last.store = BatchStore.persistAll batches ⟨store, []⟩ := hstore
  have hflawless : (BatchStore.persistAll batches (⟨store, []⟩ : Ledger DatabaseStore)).Flawless := by
    rw [← hlast]
    exact h
  obtain ⟨hmode, hran⟩ := Ledger.ran_persistAll hflawless
  rw [hlast]
  refine ⟨hmode, _, hran, hin, fun c => ?_⟩
  have hbuffered : last.queue.buffered = [] := by simp [Queue.buffered, hempty]
  have htable := htables c
  rw [hbuffered] at htable
  simpa [first, new, Queue.new, Queue.buffered, tableRecords, recordsIn] using htable

end Stored

/-- If two sinks differ in the flush threshold only, run through the same steps up to a shutdown and lose no
batch, then they give the same answers at every step and leave the same database. -/
theorem stored_same_for_thresholds [Node τ] (settings : Config.Ingest) (node : τ) (store : DatabaseStore)
    (rules : Option Rules.Book) (steps : List Step) (m n : UInt64) :
    let first (threshold : UInt64) :=
      new { settings with flushThreshold := threshold } node (⟨store, []⟩ : Ledger DatabaseStore) rules
    let run (threshold : UInt64) := runAll (steps ++ [.shutdown]) (first threshold)
    (run m).2.manager.intake.store.Flawless → (run n).2.manager.intake.store.Flawless →
      (run m).1 = (run n).1 ∧ (run m).2.manager.intake.store.store = (run n).2.manager.intake.store.store := by
  intro first run hm hn
  have houtline : (first m).outline = (first n).outline := rfl
  have hshut : Step.shutdown ∈ steps ++ [.shutdown] := by simp
  obtain ⟨hmode, records, hran, hin, htables⟩ := ran_runAll { settings with flushThreshold := m } node store
    rules hshut hm
  obtain ⟨hmode', records', hran', hin', htables'⟩ := ran_runAll { settings with flushThreshold := n } node store
    rules hshut hn
  have hfiles : Manager.filesAll (movesAll (steps ++ [.shutdown]) (first m)) (first m).manager =
      Manager.filesAll (movesAll (steps ++ [.shutdown]) (first n)) (first n).manager := by
    rw [← filesAll_outline hm, ← filesAll_outline hn, houtline]
  have hsame : ∀ c, recordsIn c records = recordsIn c records' := by
    intro c
    rw [htables, htables']
    exact congrArg (tableRecords c) hfiles
  have hdatabase := (hran.of_recordsIn_eq hin hin' hsame).unique hran'
  refine ⟨?_, ?_⟩
  · have hanswers := (runAll_outline hm).1.symm
    rw [houtline, (runAll_outline hn).1] at hanswers
    exact (Prod.mk.inj hanswers).1
  · have hstore := congr (congrArg DatabaseStore.mk hdatabase) (hmode.trans hmode'.symm)
    exact hstore

/-- One of two pushes with the same key survives, whether they are stored one by one or together. -/
theorem stored_same_for_one_and_three :
    let raw (epoch : String) := "\x7b\"timestamp\":1,\"id\":\x7b\"eventSeq\":0\x7d,\"event\":" ++
      "\x7b\"epochChange\":\x7b\"epoch_id\":" ++ epoch ++ "\x7d\x7d\x7d"
    let steps : List Step := [.subscribe .epochChange, .push 1 (raw "7"), .push 1 (raw "8")]
    let run (threshold : UInt64) := runAll (steps ++ [.shutdown])
      (new { ({} : Config.Ingest) with flushThreshold := threshold } ({} : ScriptedNode)
        (⟨⟨Database.create {}, .upsert⟩, []⟩ : Ledger DatabaseStore) none)
    (run 1).2.manager.intake.store.Flawless ∧ (run 3).2.manager.intake.store.Flawless ∧
      (run 1).2.manager.intake.store.entries.length = 2 ∧ (run 3).2.manager.intake.store.entries.length = 1 ∧
      (run 1).1 = (run 3).1 ∧ (run 1).2.manager.intake.store.store = (run 3).2.manager.intake.store.store := by
  have h := fun steps => stored_same_for_thresholds {} ({} : ScriptedNode) ⟨Database.create {}, .upsert⟩ none steps 1 3
  refine ⟨?one, ?three, ?two_batches, ?one_batch, h _ ?one ?three⟩ <;> decide +kernel

end EventIntake.EventSink
