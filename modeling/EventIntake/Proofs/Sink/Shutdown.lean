import Mathlib.Data.List.Forall2
import EventIntake.Proofs.Sink.Agreement
import EventIntake.Proofs.Subscription.Over
import EventIntake.Proofs.Subscription.Shutdown

/-! A sink is shut down once and for all. Whatever fails meanwhile, nothing stays buffered, and no later
step stores or handles anything. -/
namespace EventIntake.EventSink
open Event Subscription

deriving instance DecidableEq for Answer

variable {σ τ : Type} [BatchStore σ] [Node τ]

/-- The handler calls of a run in order. -/
def callsAll : List Step → EventSink σ τ → List (Invocation PersistingHandler)
  | [], _ => []
  | step :: rest, s => step.calls s ++ callsAll rest (step.run s).2

/-- What a sink with the settings answers to a step after its shutdown. -/
def Step.Refused (settings : Config.Ingest) : Step → Answer → Prop
  | start, .started result => result = if settings.eventTypes = [] then .ok [] else .error .shutDown
  | subscribe _, .subscribed result => result = .error .shutDown
  | subscribeWithRetry _ _, .subscribed result => result = .error .shutDown
  | unsubscribe _, .unsubscribed result => ∀ c id e, result ≠ .error (.flush c id e)
  | push _ _, .dispatched result => ∀ report, result = .ok report → report = {}
  | notify _, .dispatched result => ∀ report, result = .ok report → report = {}
  | shutdown, .shutDown result => result = .ok ()
  | _, _ => False

theorem Step.refused_run {s : EventSink σ τ} (h : s.manager.Over) (step : Step) :
    step.Refused s.settings (step.run s).1 ∧ step.calls s = [] ∧ (step.run s).2.manager.Over ∧
      (step.run s).2.manager.intake = s.manager.intake ∧ (step.run s).2.settings = s.settings := by
  cases step with
  | start => simp [run, EventSink.start, h.subscribeAll, Refused, calls, h]
  | subscribe c => simp [run, h.subscribe, Refused, calls, h]
  | subscribeWithRetry c retries => simp [run, h.subscribeWithRetry, Refused, calls, h]
  | unsubscribe c =>
    obtain ⟨hover, hintake, hresult⟩ := h.unsubscribe c
    exact ⟨hresult, rfl, hover, hintake, rfl⟩
  | push id raw =>
    obtain ⟨result, he, hresult⟩ := h.push id raw
    have hrun : (push id raw).run s = (.dispatched result, s) := by rw [run, he]
    rw [hrun, calls_push]
    exact ⟨hresult, h.invocations id raw, h, rfl, rfl⟩
  | notify raw =>
    obtain ⟨result, he, hresult⟩ := h.notify raw
    have hrun : (notify raw).run s = (.dispatched result, s) := by rw [run, he]
    rw [hrun, calls_notify]
    refine ⟨hresult, ?_, h, rfl, rfl⟩
    cases Notification.decode raw with
    | error e => rfl
    | ok n => exact h.invocations n.subscription n.result
  | shutdown => simp [run, h.shutdown, Refused, calls, h]

theorem refused_runAll {s : EventSink σ τ} {settings : Config.Ingest} (h : s.manager.Over)
    (hs : s.settings = settings) (steps : List Step) :
    List.Forall₂ (Step.Refused settings) steps (runAll steps s).1 ∧ callsAll steps s = [] ∧
      (runAll steps s).2.manager.intake = s.manager.intake := by
  induction steps generalizing s with
  | nil => exact ⟨.nil, rfl, rfl⟩
  | cons step rest ih =>
    obtain ⟨hanswer, hcalls, hover, hintake, hsettings⟩ := step.refused_run h
    obtain ⟨hanswers, hcallsAll, hlater⟩ := ih hover (hsettings.trans hs)
    refine ⟨.cons (hs ▸ hanswer) hanswers, ?_, hlater.trans hintake⟩
    rw [callsAll, hcalls, hcallsAll]
    rfl

theorem settings_runAll (steps : List Step) (s : EventSink σ τ) : (runAll steps s).2.settings = s.settings := by
  induction steps generalizing s with
  | nil => rfl
  | cons step rest ih =>
    refine (ih _).trans ?_
    cases step <;> rfl

/-- The first shutdown of a sink asks for every open subscription to be closed, stops routing and stores
what is buffered, whatever fails. From then on no later step gives the store a batch or calls a handler,
no subscription is opened, and a shutdown has nothing to report. -/
theorem shutdown_complete_and_final (settings : Config.Ingest) (node : τ) (store : σ)
    (rules : Option Rules.Book) (steps later : List Step) (hfirst : .shutdown ∉ steps) :
    let first := new settings (⟨node, []⟩ : NotingNode τ) (⟨store, []⟩ : Ledger σ) rules
    let before := (runAll steps first).2
    let answer := (Step.shutdown.run before).1
    let ended := (Step.shutdown.run before).2
    let last := (runAll later ended).2
    (∃ result, answer = .shutDown result ∧ before.manager.ShutsDown result ended.manager) ∧
      (∀ id, ended.manager.intake.queue.pending id = [] ∧ ended.manager.registry.lookup id = none) ∧
      ended.manager.intake.queue.closed = true ∧
      last.manager.intake = ended.manager.intake ∧
      callsAll later ended = [] ∧
      List.Forall₂ (Step.Refused settings) later (runAll later ended).1 := by
  intro first before answer ended last
  obtain ⟨_, hcoherent, hshut⟩ := took_runAll (coherent_new settings (⟨node, []⟩ : NotingNode τ)
    (⟨store, []⟩ : Ledger σ) rules) steps
  have hd : before.manager.shutDown = false := by
    have hne : before.manager.shutDown ≠ true := fun h => (hshut.mp h).elim (by simp [new]) hfirst
    simpa using hne
  have hagrees : first.manager.Agrees := (complete_new settings _ _ rules).agrees
  have hbefore : before.manager = first.manager.after (movesAll steps first) := runAll_eq_after steps first
  have hall : before.manager.AllSubscribed := by
    have hnew : first.manager.AllSubscribed := fun _ h => by cases h
    exact hbefore ▸ hnew.after hagrees _
  have hshutsDown := Manager.shutsDown hall (hbefore ▸ hagrees.after _) hcoherent.sound hd
  have hover : before.manager.shutdown.2.Over := hshutsDown.closed ▸ Manager.over_close _
  have hsettings : before.settings = settings := settings_runAll steps first
  obtain ⟨hanswers, hcalls, hintake⟩ := refused_runAll (s := ended) hover hsettings later
  refine ⟨⟨_, rfl, hshutsDown⟩, fun id => ⟨hover.pending id, hover.lookup id⟩, hover.queue_closed, hintake,
    hcalls, hanswers⟩

/-- A shutdown that meets failures only. -/
theorem shutdown_of_failing_sink :
    let raw := "\x7b\"timestamp\":1,\"id\":\x7b\"eventSeq\":0\x7d,\"event\":" ++
      "\x7b\"checkpoint\":\x7b\"checkpoint_sequence_number\":7\x7d\x7d\x7d"
    let steps : List Step := [.subscribe .checkpoint, .subscribe .publish, .push 1 raw]
    let later : List Step := [.unsubscribe .publish, .subscribe .publish, .push 1 raw, .shutdown]
    let first := new {} (⟨{ unsubscribeFailing := true }, []⟩ : NotingNode ScriptedNode)
      (⟨{ failing := true }, []⟩ : Ledger MemoryStore) none
    let answer := (Step.shutdown.run (runAll steps first).2).1
    let ended := (Step.shutdown.run (runAll steps first).2).2
    let last := (runAll later ended).2
    .shutdown ∉ steps ∧
      answer = .shutDown (.error
        ⟨[.transport .publish .timeout, .transport .checkpoint .timeout],
          some (.flush 1 1 (.unavailable "mock store failure"))⟩) ∧
      ended.manager.intake.store.entries.length = 1 ∧
      last.manager.intake = ended.manager.intake ∧ callsAll later ended = [] := by
  have h := shutdown_complete_and_final {} ({ unsubscribeFailing := true } : ScriptedNode)
    ({ failing := true } : MemoryStore) none
  exact ⟨by decide, by decide +kernel, by decide +kernel, (h _ _ (by decide)).2.2.2.1,
    (h _ _ (by decide)).2.2.2.2.1⟩

end EventIntake.EventSink
