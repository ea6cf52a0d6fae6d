import EventIntake.Proofs.Subscription.Moves

/-! A manager that was shut down stores and handles nothing more, whatever it is asked. -/
namespace EventIntake.Subscription
open Event

namespace Manager

variable {σ τ : Type}

/-- No subscription is opened, no id is routed, and nothing is buffered or accepted. -/
structure Over (m : Manager σ τ) : Prop where
  shutDown : m.shutDown = true
  registry_closed : m.registry.closed = true
  queue_closed : m.intake.queue.closed = true
  empty : m.intake.queue.buffers = []

theorem Over.pending {m : Manager σ τ} (h : m.Over) (id : SubscriptionId) : m.intake.queue.pending id = [] := by
  simp [Queue.pending, h.empty, Sorted.find?]

theorem Over.lookup {m : Manager σ τ} (h : m.Over) (id : SubscriptionId) : m.registry.lookup id = none := by
  simp [Registry.lookup, h.registry_closed]

theorem Over.invocations {m : Manager σ τ} (h : m.Over) (id : SubscriptionId) (raw : String) :
    invocations m.registry id raw = [] := by
  rw [Subscription.invocations, h.lookup]
  cases Envelope.decode raw <;> rfl

section Opening
variable [Node τ]

theorem Over.subscribe {m : Manager σ τ} (h : m.Over) (c : Category) :
    m.subscribe c = (.error .shutDown, m) := by
  simp [Manager.subscribe, h.shutDown]

theorem Over.subscribeWithRetry {m : Manager σ τ} (h : m.Over) (c : Category) (retries : Nat) :
    m.subscribeWithRetry c retries = (.error .shutDown, m) := by
  cases retries <;> simp [Manager.subscribeWithRetry, h.subscribe, LifecycleError.retryable]

theorem Over.subscribeAll {m : Manager σ τ} (h : m.Over) (retries : Nat) (categories : List Category) :
    m.subscribeAll retries categories = (if categories = [] then .ok [] else .error .shutDown, m) := by
  cases categories <;> simp [Manager.subscribeAll, h.subscribeWithRetry]

end Opening

section Later
variable [BatchStore σ]

theorem over_close [Node τ] (m : Manager σ τ) : (Move.close.run m).Over := ⟨rfl, rfl, rfl, rfl⟩

theorem Over.release {m : Manager σ τ} (h : m.Over) (id : SubscriptionId) :
    m.intake.release id = (.ok 0, m.intake) := by
  obtain ⟨_, ⟨⟨_, _, buffers, _⟩, _, _⟩, _, _, _⟩ := m
  cases (h.empty : buffers = [])
  rfl

/-- A push reaches no handler. -/
theorem Over.push {m : Manager σ τ} (h : m.Over) (id : SubscriptionId) (raw : String) :
    ∃ result, m.push id raw = (result, m) ∧ ∀ report, result = .ok report → report = {} := by
  rcases dispatch_cases Intake.handle m.registry id raw m.intake with ⟨_, result, he, hr⟩ | ⟨_, _, _, hl, _⟩
  · exact ⟨result, by rw [Manager.push, he], hr⟩
  · exact absurd hl (by simp [h.lookup])

theorem Over.notify {m : Manager σ τ} (h : m.Over) (raw : String) :
    ∃ result, m.notify raw = (result, m) ∧ ∀ report, result = .ok report → report = {} := by
  rw [notify_eq]
  cases Notification.decode raw with
  | error e => exact ⟨_, rfl, by simp⟩
  | ok n => exact h.push n.subscription n.result

variable [Node τ]

theorem Over.shutdown {m : Manager σ τ} (h : m.Over) : m.shutdown = (.ok (), m) := by
  simp [Manager.shutdown, h.shutDown]

/-- Nothing is left to be stored for a subscription whose closing is tried again. -/
theorem Over.unsubscribe {m : Manager σ τ} (h : m.Over) (c : Category) :
    (m.unsubscribe c).2.Over ∧ (m.unsubscribe c).2.intake = m.intake ∧
      ∀ d id e, (m.unsubscribe c).1 ≠ .error (.flush d id e) := by
  have ho := unsubscribed c m
  generalize (m.unsubscribe c).1 = result, (m.unsubscribe c).2 = m' at ho ⊢
  cases ho with
  | idle | failed | rejected | unrouted =>
    exact ⟨⟨h.shutDown, h.registry_closed, h.queue_closed, h.empty⟩, rfl, by simp⟩
  | released _ _ _ hrel =>
    cases (h.release _).symm.trans hrel
    exact ⟨⟨h.shutDown, h.registry_closed, h.queue_closed, h.empty⟩, rfl, by simp⟩

end Later

end Manager

end EventIntake.Subscription
