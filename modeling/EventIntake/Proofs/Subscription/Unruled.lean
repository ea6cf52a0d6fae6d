import EventIntake.Proofs.Subscription.Opening

/-! The rules see events and nothing comes back from them: without them a manager does and answers the same. -/
namespace EventIntake
open Event Subscription

namespace Intake
variable {σ : Type}

/-- An intake without its rules. -/
def unruled (w : Intake σ) : Intake σ := { w with rules := none }

variable [BatchStore σ]

theorem enqueue_unruled (id : SubscriptionId) (r : Record) (w : Intake σ) :
    w.unruled.enqueue id r = ((w.enqueue id r).1, (w.enqueue id r).2.unruled) :=
  rfl

theorem release_unruled (id : SubscriptionId) (w : Intake σ) :
    w.unruled.release id = ((w.release id).1, (w.release id).2.unruled) :=
  rfl

theorem drain_unruled (w : Intake σ) : w.unruled.drain = (w.drain.1, w.drain.2.unruled) := rfl

/-- Whatever the rules make of an event, it is stored in the same way. -/
theorem handle_unruled (handler : PersistingHandler) (id : SubscriptionId) (info : Meta) (p : Payload)
    (w : Intake σ) :
    handle handler id info p w.unruled =
      ((handle handler id info p w).1, (handle handler id info p w).2.unruled) := by
  have hobserved : (w.unruled.observe info p).enqueue id (Record.ofEvent info p) = _ :=
    enqueue_unruled id (Record.ofEvent info p) (w.observe info p)
  simp only [handle, hobserved]
  split
  · rcases (w.observe info p).enqueue id (Record.ofEvent info p) with ⟨e | outcome, w'⟩ <;> rfl
  · rfl

end Intake

namespace Subscription.Manager
variable {σ τ : Type}

/-- A manager whose events no rules look at. -/
def unruled (m : Manager σ τ) : Manager σ τ := m.withIntake m.intake.unruled

theorem subscribe_unruled [Node τ] (c : Category) (m : Manager σ τ) :
    m.unruled.subscribe c = ((m.subscribe c).1, (m.subscribe c).2.unruled) := by
  rw [unruled, unruled, subscribe_withIntake, intake_subscribe]

theorem subscribeWithRetry_unruled [Node τ] (c : Category) (retries : Nat) (m : Manager σ τ) :
    m.unruled.subscribeWithRetry c retries =
      ((m.subscribeWithRetry c retries).1, (m.subscribeWithRetry c retries).2.unruled) := by
  obtain ⟨hrun, _, hintake⟩ := subscribeWithRetry_withIntake c retries m m.intake.unruled
  rw [unruled, unruled, hintake]
  exact hrun

section Storing
variable [BatchStore σ]

theorem push_unruled (id : SubscriptionId) (raw : String) (m : Manager σ τ) :
    m.unruled.push id raw = ((m.push id raw).1, (m.push id raw).2.unruled) := by
  have hdispatch : dispatch Intake.handle m.unruled.registry id raw m.unruled.intake = _ :=
    dispatch_agreeing Intake.handle_unruled m.registry id raw m.intake
  rw [push, hdispatch]
  rfl

theorem notify_unruled (raw : String) (m : Manager σ τ) :
    m.unruled.notify raw = ((m.notify raw).1, (m.notify raw).2.unruled) := by
  rw [notify_eq, notify_eq]
  cases Notification.decode raw with
  | error e => rfl
  | ok n => exact push_unruled n.subscription n.result m

variable [Node τ]

theorem subscribeAll_unruled (retries : Nat) (categories : List Category) (m : Manager σ τ) :
    m.unruled.subscribeAll retries categories =
      ((m.subscribeAll retries categories).1, (m.subscribeAll retries categories).2.unruled) := by
  obtain ⟨hrun, _, hintake⟩ := subscribeAll_withIntake retries categories m m.intake.unruled
  rw [unruled, unruled, hintake]
  exact hrun

theorem Unsubscribed.unruled {c : Category} {m m' : Manager σ τ} {result : Except LifecycleError Unit}
    (h : Unsubscribed c m result m') : Unsubscribed c m.unruled result m'.unruled := by
  cases h with
  | idle hc => exact .idle hc
  | failed hs hn => exact .failed hs hn
  | rejected hs hn => exact .rejected hs hn
  | unrouted hs hn hr => exact .unrouted hs hn hr
  | @released id _ result intake hs hn hr hi =>
    have hrelease : m.unruled.intake.release id = (result, intake.unruled) := by
      have hu := Intake.release_unruled id m.intake
      rwa [hi] at hu
    exact Unsubscribed.released (m := m.unruled) hs hn hr hrelease

theorem unsubscribe_unruled (c : Category) (m : Manager σ τ) :
    m.unruled.unsubscribe c = ((m.unsubscribe c).1, (m.unsubscribe c).2.unruled) :=
  (unsubscribed c m).unruled.eq

theorem unsubscribeAll_unruled (categories : List Category) (m : Manager σ τ) :
    m.unruled.unsubscribeAll categories =
      ((m.unsubscribeAll categories).1, (m.unsubscribeAll categories).2.unruled) := by
  induction categories generalizing m with
  | nil => rfl
  | cons c rest ih =>
    simp only [unsubscribeAll, unsubscribe_unruled]
    rcases m.unsubscribe c with ⟨e | _, m'⟩
    · simp only [ih]
    · exact ih m'

theorem shutdown_unruled (m : Manager σ τ) :
    m.unruled.shutdown = (m.shutdown.1, m.shutdown.2.unruled) := by
  have hshut : m.unruled.shutDown = m.shutDown := rfl
  have hclosed : { m.unruled with shutDown := true }.unsubscribeAll (m.unruled.states.map Prod.fst) = _ :=
    unsubscribeAll_unruled (m.states.map Prod.fst) { m with shutDown := true }
  simp only [shutdown, hshut, hclosed]
  split
  · rfl
  · generalize { m with shutDown := true }.unsubscribeAll (m.states.map Prod.fst) = answer
    obtain ⟨errors, closed⟩ := answer
    have hdrain : closed.unruled.intake.drain = _ := Intake.drain_unruled closed.intake
    simp only [hdrain]
    rcases closed.intake.drain with ⟨e | _, intake⟩
    · cases errors <;> rfl
    · cases errors <;> rfl

end Storing

end Subscription.Manager

end EventIntake
