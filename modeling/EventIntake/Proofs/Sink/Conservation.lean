import EventIntake.Proofs.Sink.Runs

/-! No event is lost on its way through a sink, and none is stored twice. -/
namespace EventIntake.EventSink
open Event Queue Subscription

variable {τ : Type} [Node τ]

/-- Over a store that does not fail, a run commits its due records and keeps the others buffered, each
once and in the order of its subscription. No handler call fails, and after a shutdown every due
record is committed. -/
theorem committed_and_buffered_eq_due (settings : Config.Ingest) (node : τ)
    (rules : Option Rules.Book) (steps : List Step) :
    let first := new settings node ({} : MemoryStore) rules
    let (answers, last) := runAll steps first
    let store := last.manager.intake.store
    let queue := last.manager.intake.queue
    let due := dueAll steps first
    (store.rows ++ queue.buffered.flatMap Prod.snd).Perm (due.flatMap Prod.snd) ∧
      (∃ committed, committed.flatMap Prod.snd = store.rows ∧
        ∀ id, recordsFor id committed ++ queue.pending id = recordsFor id due) ∧
      (∀ report, .dispatched (.ok report) ∈ answers → report.handlerFailures = 0) ∧
      (.shutdown ∈ steps →
        (∀ id, queue.pending id = []) ∧ store.rows.Perm (due.flatMap Prod.snd)) := by
  intro first
  have hc : first.manager.Coherent := coherent_new settings node _ rules
  have hw : first.manager.intake.store.Working := ⟨rfl, rfl⟩
  obtain ⟨⟨hs, batches, hstore, hpending⟩, hlast, hshut⟩ := took_runAll hc steps
  have hrows : (runAll steps first).2.manager.intake.store.rows =
      (labelled batches).flatMap Prod.snd := by
    rw [hstore, hw.rows_persistAll]
    rfl
  have hfor : ∀ id, recordsFor id (labelled batches) ++
      (runAll steps first).2.manager.intake.queue.pending id = recordsFor id (dueAll steps first) :=
    fun id => by rw [recordsFor_labelled, hpending id]; rfl
  have hperm : (labelled batches ++ (runAll steps first).2.manager.intake.queue.buffered).Perm
      (dueAll steps first) :=
    perm_of_recordsFor fun id => by rw [recordsFor_append, recordsFor_buffered hs, hfor id]
  have hall := hperm.flatMap_right Prod.snd
  rw [List.flatMap_append, ← hrows] at hall
  refine ⟨hall, ⟨labelled batches, hrows.symm, hfor⟩,
    fun _ hr => runAll_handlerFailures hc hw hr, fun hsteps => ?_⟩
  have hclosed := hlast.shutDown.symm.trans (hshut.mpr (.inr hsteps))
  have hempty := hs.closed_empty hclosed
  refine ⟨fun id => by simp [pending, hempty, Sorted.find?], ?_⟩
  simpa [buffered, hempty] using hall

end EventIntake.EventSink
