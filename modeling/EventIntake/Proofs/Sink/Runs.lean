import EventIntake.Proofs.Subscription.Lifecycle
import EventIntake.Sink

/-! Runs of a sink: its steps in any order, with the handler calls they lead to. -/
namespace EventIntake.EventSink
open Event Subscription

inductive Step
  | start
  | subscribe (c : Category)
  | subscribeWithRetry (c : Category) (retries : Nat)
  | unsubscribe (c : Category)
  | push (id : SubscriptionId) (raw : String)
  | notify (raw : String)
  | shutdown
  deriving DecidableEq, Repr

/-- What a step returns. -/
inductive Answer
  | started (result : Except LifecycleError (List (Category × SubscriptionId)))
  | subscribed (result : Except LifecycleError SubscriptionId)
  | unsubscribed (result : Except LifecycleError Unit)
  | dispatched (result : Except DispatchError Report)
  | shutDown (result : Except ShutdownError Unit)
  deriving Repr

variable {σ τ : Type} [BatchStore σ] [Node τ]

namespace Step

/-- The answer to a step and the sink after it. -/
def run (step : Step) (s : EventSink σ τ) : Answer × EventSink σ τ :=
  match step with
  | start =>
    let (result, s) := s.start
    (.started result, s)
  | subscribe c =>
    let (result, manager) := s.manager.subscribe c
    (.subscribed result, { s with manager := manager })
  | subscribeWithRetry c retries =>
    let (result, manager) := s.manager.subscribeWithRetry c retries
    (.subscribed result, { s with manager := manager })
  | unsubscribe c =>
    let (result, manager) := s.manager.unsubscribe c
    (.unsubscribed result, { s with manager := manager })
  | push id raw =>
    let (result, manager) := s.manager.push id raw
    (.dispatched result, { s with manager := manager })
  | notify raw =>
    let (result, manager) := s.manager.notify raw
    (.dispatched result, { s with manager := manager })
  | shutdown =>
    let (result, manager) := s.manager.shutdown
    (.shutDown result, { s with manager := manager })

/-- The handler calls of a step, noted while its push is dispatched. -/
def calls (step : Step) (s : EventSink σ τ) : List (Invocation PersistingHandler) :=
  match step with
  | push id raw =>
    (dispatch (noting Intake.handle) s.manager.registry id raw (s.manager.intake, [])).2.2
  | notify raw =>
    (Subscription.notify (noting Intake.handle) s.manager.registry raw (s.manager.intake, [])).2.2
  | _ => []

/-- The records of the calls of a step whose event is of the category registered for the subscription. -/
def due (step : Step) (s : EventSink σ τ) : List (SubscriptionId × Record) :=
  Intake.due s.manager.registry (step.calls s)

end Step

/-- The answers to the steps in order, and the sink after the last. -/
def runAll : List Step → EventSink σ τ → List Answer × EventSink σ τ
  | [], s => ([], s)
  | step :: rest, s =>
    let (answer, s) := step.run s
    let (answers, s) := runAll rest s
    (answer :: answers, s)

/-- The due records of a run, in the order of the calls. -/
def dueAll : List Step → EventSink σ τ → List (SubscriptionId × Record)
  | [], _ => []
  | step :: rest, s => step.due s ++ dueAll rest (step.run s).2

/-! ### One step -/

omit [Node τ] in
theorem Step.calls_push (id : SubscriptionId) (raw : String) (s : EventSink σ τ) :
    (Step.push id raw).calls s = invocations s.manager.registry id raw := by
  simp [calls, dispatch_noting]

omit [Node τ] in
theorem Step.calls_notify (raw : String) (s : EventSink σ τ) :
    (Step.notify raw).calls s =
      match Notification.decode raw with
      | .error _ => []
      | .ok n => invocations s.manager.registry n.subscription n.result := by
  simp only [calls, Subscription.notify]
  cases Notification.decode raw with
  | error e => rfl
  | ok n => simp [dispatch_noting]

/-- Every step but a shutdown carries its due records into the intake. -/
theorem Step.carried_run {s : EventSink σ τ} (h : s.manager.Coherent) {step : Step}
    (hd : step ≠ .shutdown) : s.manager.Carried (step.due s) (step.run s).2.manager := by
  cases step with
  | start => exact Manager.carried_subscribeAll h.sound _ _
  | subscribe c => exact Manager.carried_subscribe h.sound c
  | subscribeWithRetry c retries => exact Manager.carried_subscribeWithRetry h.sound c retries
  | unsubscribe c => exact Manager.carried_unsubscribe h.sound c
  | push id raw =>
    rw [due, calls_push]
    exact Manager.carried_push h id raw
  | notify raw =>
    simp only [due, calls_notify, run, Manager.notify_eq]
    cases Notification.decode raw with
    | error e => exact .refl h.sound
    | ok n => exact Manager.carried_push h n.subscription n.result
  | shutdown => exact absurd rfl hd

theorem Step.took_run {s : EventSink σ τ} (h : s.manager.Coherent) (step : Step) :
    s.manager.intake.Took (step.due s) (step.run s).2.manager.intake ∧
      (step.run s).2.manager.Coherent ∧
      ((step.run s).2.manager.shutDown = true ↔ s.manager.shutDown = true ∨ step = .shutdown) := by
  by_cases hd : step = .shutdown
  · subst hd
    obtain ⟨ht, hc, hs⟩ := Manager.coherent_shutdown h
    exact ⟨ht, hc, by simp [run, hs]⟩
  · have hk := step.carried_run h hd
    exact ⟨hk.took, hk.coherent h, by simp [hk.shutDown, hd]⟩

theorem Step.handlerFailures {s : EventSink MemoryStore τ} (h : s.manager.Coherent)
    (hw : s.manager.intake.store.Working) {step : Step} {report : Report}
    (hr : (step.run s).1 = .dispatched (.ok report)) : report.handlerFailures = 0 := by
  have hp : ∀ id raw, (s.manager.push id raw).1 = .ok report → report.handlerFailures = 0 :=
    fun _ _ hp => Intake.dispatch_handlerFailures h.sound hw h.registry_closed hp
  cases step with
  | push id raw => exact hp id raw (Answer.dispatched.inj hr)
  | notify raw =>
    have hn : (s.manager.notify raw).1 = .ok report := Answer.dispatched.inj hr
    rw [Manager.notify_eq] at hn
    cases hd : Notification.decode raw with
    | error e => simp [hd] at hn
    | ok n =>
      rw [hd] at hn
      exact hp n.subscription n.result hn
  | _ => cases hr

/-! ### Runs -/

omit [BatchStore σ] [Node τ] in
theorem coherent_new (settings : Config.Ingest) (node : τ) (store : σ) (rules : Option Rules.Book) :
    (new settings node store rules).manager.Coherent :=
  ⟨Queue.sound_new _, by simp [Intake.Matched, new], rfl, rfl⟩

theorem took_runAll {s : EventSink σ τ} (h : s.manager.Coherent) (steps : List Step) :
    s.manager.intake.Took (dueAll steps s) (runAll steps s).2.manager.intake ∧
      (runAll steps s).2.manager.Coherent ∧
      ((runAll steps s).2.manager.shutDown = true ↔
        s.manager.shutDown = true ∨ .shutdown ∈ steps) := by
  induction steps generalizing s with
  | nil => exact ⟨.refl h.sound, h, by simp [runAll]⟩
  | cons step rest ih =>
    obtain ⟨ht, hc, hs⟩ := step.took_run h
    obtain ⟨ht', hc', hs'⟩ := ih hc
    refine ⟨ht.trans ht', hc', ?_⟩
    simp only [runAll, hs', hs, List.mem_cons, or_assoc, eq_comm]

/-- In front of a store that does not fail no handler call fails. -/
theorem runAll_handlerFailures {s : EventSink MemoryStore τ} (h : s.manager.Coherent)
    (hw : s.manager.intake.store.Working) {steps : List Step} {report : Report}
    (hr : .dispatched (.ok report) ∈ (runAll steps s).1) : report.handlerFailures = 0 := by
  induction steps generalizing s with
  | nil => cases hr
  | cons step rest ih =>
    obtain ⟨ht, hc, _⟩ := step.took_run h
    rcases List.mem_cons.mp hr with hr | hr
    · exact step.handlerFailures h hw hr.symm
    · exact ih hc (ht.working hw) hr

end EventIntake.EventSink
