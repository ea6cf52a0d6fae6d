import EventIntake.Config.Settings
import EventIntake.Subscription.Lifecycle

/-! The whole way of events, from subscriptions at a node to a store. -/
namespace EventIntake
open Event

/-- A manager with the settings it was started with. -/
structure EventSink (σ τ : Type) where
  settings : Config.Ingest
  manager : Subscription.Manager σ τ

namespace EventSink

variable {σ τ : Type} [BatchStore σ] [Subscription.Node τ]

def new (settings : Config.Ingest) (node : τ) (store : σ) (rules : Option Rules.Book) :
    EventSink σ τ where
  settings := settings
  manager := { node := node, intake := ⟨.new settings.flushThreshold.toNat, store, rules⟩ }

/-- Subscribes to the configured categories. -/
def start (s : EventSink σ τ) :
    Except Subscription.LifecycleError (List (Category × SubscriptionId)) × EventSink σ τ :=
  let (result, manager) :=
    s.manager.subscribeAll s.settings.subscribeRetries.toNat s.settings.eventTypes
  (result, { s with manager := manager })

end EventSink

end EventIntake
