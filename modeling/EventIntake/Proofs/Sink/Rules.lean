import EventIntake.Proofs.Sink.Runs
import EventIntake.Proofs.Subscription.Unruled

/-! Rules never get in the way of events. A sink with rules goes through the same states, and gives the same answers,
as one without, whatever is done to its rules and its alerts meanwhile. -/
namespace EventIntake
open Event Subscription

/-- What can be done to rules from outside. -/
inductive Rules.Act
  | add (owner : String) (rule : Rule)
  | remove (owner : String)
  /-- An alert is read, if there is one. -/
  | receive
  /-- The reader takes no more alerts, but reads those that wait. -/
  | shutAlerts
  /-- Nobody reads alerts any more. -/
  | closeAlerts
  deriving DecidableEq, Repr

def Rules.Act.run (act : Act) (b : Book) : Book :=
  match act with
  | add owner rule => b.add owner rule
  | remove owner => (b.remove owner).2
  | receive => { b with channel := b.channel.receive.2 }
  | shutAlerts => { b with channel := b.channel.shut }
  | closeAlerts => { b with channel := b.channel.close }

namespace EventSink
variable {σ τ : Type}

/-- A sink whose events no rules look at. -/
def unruled (s : EventSink σ τ) : EventSink σ τ := { s with manager := s.manager.unruled }

/-- What can happen to a sink: a step, other settings of its node or its store, such as failures to come, or an act on
its rules, if it has any. -/
inductive Happening (σ τ : Type)
  | step (taken : Step)
  | node (change : τ → τ)
  | store (change : σ → σ)
  | rules (act : Rules.Act)

variable [BatchStore σ] [Node τ]

/-- The answer to a step, if it is one, and the sink afterwards. -/
def Happening.run (happening : Happening σ τ) (s : EventSink σ τ) : Option Answer × EventSink σ τ :=
  let manager := s.manager
  let intake := s.manager.intake
  match happening with
  | step taken =>
    let (answer, s) := taken.run s
    (some answer, s)
  | node change => (none, { s with manager := { manager with node := change manager.node } })
  | store change =>
    (none, { s with manager := { manager with intake := { intake with store := change intake.store } } })
  | rules act =>
    (none, { s with manager := { manager with intake := { intake with rules := intake.rules.map act.run } } })

/-- Every answer with the state after it, in order. -/
def trace : List (Happening σ τ) → EventSink σ τ → List (Option Answer × EventSink σ τ)
  | [], _ => []
  | happening :: rest, s =>
    let (answer, s) := happening.run s
    (answer, s) :: trace rest s

theorem Step.run_unruled (step : Step) (s : EventSink σ τ) :
    step.run s.unruled = ((step.run s).1, (step.run s).2.unruled) := by
  cases step with
  | start =>
    have hrun : s.unruled.manager.subscribeAll s.unruled.settings.subscribeRetries.toNat s.unruled.settings.eventTypes = _ :=
      Manager.subscribeAll_unruled s.settings.subscribeRetries.toNat s.settings.eventTypes s.manager
    simp only [run, EventSink.start, hrun]
    rfl
  | subscribe c =>
    have hrun : s.unruled.manager.subscribe c = _ := Manager.subscribe_unruled c s.manager
    simp only [run, hrun]
    rfl
  | subscribeWithRetry c retries =>
    have hrun : s.unruled.manager.subscribeWithRetry c retries = _ :=
      Manager.subscribeWithRetry_unruled c retries s.manager
    simp only [run, hrun]
    rfl
  | unsubscribe c =>
    have hrun : s.unruled.manager.unsubscribe c = _ := Manager.unsubscribe_unruled c s.manager
    simp only [run, hrun]
    rfl
  | push id raw =>
    have hrun : s.unruled.manager.push id raw = _ := Manager.push_unruled id raw s.manager
    simp only [run, hrun]
    rfl
  | notify raw =>
    have hrun : s.unruled.manager.notify raw = _ := Manager.notify_unruled raw s.manager
    simp only [run, hrun]
    rfl
  | shutdown =>
    have hrun : s.unruled.manager.shutdown = _ := Manager.shutdown_unruled s.manager
    simp only [run, hrun]
    rfl

theorem Happening.run_unruled (happening : Happening σ τ) (s : EventSink σ τ) :
    happening.run s.unruled = ((happening.run s).1, (happening.run s).2.unruled) := by
  cases happening with
  | step taken => simp only [run, taken.run_unruled]
  | node | store | rules => rfl

theorem trace_unruled (happenings : List (Happening σ τ)) (s : EventSink σ τ) :
    trace happenings s.unruled = (trace happenings s).map fun entry => (entry.1, entry.2.unruled) := by
  induction happenings generalizing s with
  | nil => rfl
  | cons happening rest ih => simp only [trace, List.map_cons, happening.run_unruled, ih]

/-- Of two new sinks, one with any rules and alerts and one without, that see the same happenings, both give the same
answers, and after each happening they differ in nothing but the rules. Acts on rules have nothing to act on in
a sink without rules. -/
theorem trace_same_without_rules (settings : Config.Ingest) (node : τ) (store : σ) (book : Rules.Book)
    (happenings : List (Happening σ τ)) :
    (trace happenings (new settings node store (some book))).map (fun entry => (entry.1, entry.2.unruled)) =
      trace happenings (new settings node store none) :=
  (trace_unruled happenings (new settings node store (some book))).symm

end EventSink

end EventIntake
