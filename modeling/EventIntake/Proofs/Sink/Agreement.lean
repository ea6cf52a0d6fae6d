import EventIntake.Proofs.Sink.Runs
import EventIntake.Proofs.Subscription.Routing
import EventIntake.Store.Memory

/-! In a run of a sink the routes and the subscriptions agree. They are the same as long as the node hands
out no id that is in use. -/
namespace EventIntake.EventSink
open Event Subscription

/-! ### Runs as moves -/

section Moves
variable {σ τ : Type} [BatchStore σ] [Node τ]

/-- The moves of the manager that a step leads to. -/
def Step.moves (step : Step) (s : EventSink σ τ) : List Move :=
  match step with
  | start => s.manager.subscribeAllMoves s.settings.subscribeRetries.toNat s.settings.eventTypes
  | subscribe c => [.subscribe c]
  | subscribeWithRetry c retries => s.manager.retryMoves c retries
  | unsubscribe c => [.unsubscribe c]
  | push id raw => [.push id raw]
  | notify raw =>
    match Notification.decode raw with
    | .error _ => []
    | .ok n => [.push n.subscription n.result]
  | shutdown => s.manager.shutdownMoves

def movesAll : List Step → EventSink σ τ → List Move
  | [], _ => []
  | step :: rest, s => step.moves s ++ movesAll rest (step.run s).2

theorem Step.run_eq_after (step : Step) (s : EventSink σ τ) :
    (step.run s).2.manager = s.manager.after (step.moves s) := by
  cases step with
  | start => exact Manager.subscribeAll_snd _ _ _
  | subscribe | unsubscribe | push => rfl
  | subscribeWithRetry c retries => exact Manager.subscribeWithRetry_snd _ _ _
  | notify raw =>
    simp only [run, moves, Manager.notify_eq]
    cases Notification.decode raw <;> rfl
  | shutdown => exact Manager.shutdown_snd_eq_after _

theorem runAll_eq_after (steps : List Step) (s : EventSink σ τ) :
    (runAll steps s).2.manager = s.manager.after (movesAll steps s) := by
  induction steps generalizing s with
  | nil => rfl
  | cons step rest ih =>
    rw [movesAll, Manager.after_append, ← step.run_eq_after]
    exact ih _

theorem runAll_append (steps rest : List Step) (s : EventSink σ τ) :
    (runAll (steps ++ rest) s).2 = (runAll rest (runAll steps s).2).2 := by
  induction steps generalizing s with
  | nil => rfl
  | cons step steps ih => exact ih _

end Moves

/-! ### Agreement -/

/-- A node that hands out prepared ids in order and confirms every closing. -/
structure PreparedNode where
  ids : List SubscriptionId
  deriving DecidableEq, Repr

instance : Node PreparedNode where
  subscribe _ n :=
    match n.ids with
    | [] => (.error .timeout, n)
    | id :: rest => (.ok id, ⟨rest⟩)
  unsubscribe _ n := (.ok true, n)

section Agreement
variable {σ τ : Type} [BatchStore σ] [Node τ]

omit [BatchStore σ] [Node τ] in
theorem complete_new (settings : Config.Ingest) (node : τ) (store : σ) (rules : Option Rules.Book) :
    (new settings node store rules).manager.Complete where
  agrees := ⟨.nil, .nil, fun _ => .inl rfl, by simp [new]⟩
  covered := fun _ _ h => by cases h
  closed := fun h => by cases h

/-- A route leads to the category that holds its id, so each category has at most one, and no category
is left between two states. If the node hands out no id that is in use, the routes are just the active
subscriptions. -/
theorem routes_agree_with_states (settings : Config.Ingest) (node : τ) (store : σ)
    (rules : Option Rules.Book) (steps : List Step) :
    let first := new settings node store rules
    let last := (runAll steps first).2.manager
    (∀ entry ∈ last.registry.routes, last.state entry.2.category = .subscribed entry.1) ∧
      (∀ a ∈ last.registry.routes, ∀ b ∈ last.registry.routes, a.2.category = b.2.category → a.1 = b.1) ∧
      (∀ c, last.state c = .unsubscribed ∨ ∃ id, last.state c = .subscribed id) ∧
      ((∀ g ∈ Manager.grants (movesAll steps first) first.manager, g.Fresh) →
        ∀ c id, (c, id) ∈ last.active ↔ ∃ entry ∈ last.registry.routes, entry.1 = id ∧ entry.2.category = c) := by
  intro first last
  have hfirst : first.manager.Complete := complete_new settings node store rules
  have hlast : last = first.manager.after (movesAll steps first) := runAll_eq_after steps first
  have ha : last.Agrees := hlast ▸ hfirst.agrees.after _
  refine ⟨ha.held, fun a hea b heb hc => ?_, ha.settled, fun hf c id => ?_⟩
  · exact ha.id_eq (ha.held b heb) hea hc
  · have hcomplete : last.Complete := hlast ▸ hfirst.after hf
    rw [Manager.mem_active ha.states]
    refine ⟨hcomplete.covered c id, ?_⟩
    rintro ⟨entry, he, rfl, rfl⟩
    exact ha.held entry he

/-- An id may be handed out again after its subscription was closed. -/
theorem routes_agree_after_reuse :
    let first :=
      new { eventTypes := [.publish, .newObject] } (⟨[7, 8, 7]⟩ : PreparedNode) ({} : MemoryStore) none
    let steps : List Step := [.start, .unsubscribe .publish, .subscribe .moveEvent]
    let last := (runAll steps first).2.manager
    (∀ g ∈ Manager.grants (movesAll steps first) first.manager, g.Fresh) ∧
      last.active = [(.moveEvent, 7), (.newObject, 8)] ∧
      ∀ c id, (c, id) ∈ last.active ↔
        ∃ entry ∈ last.registry.routes, entry.1 = id ∧ entry.2.category = c := by
  intro first steps last
  have hf : ∀ g ∈ Manager.grants (movesAll steps first) first.manager, g.Fresh := by decide
  exact ⟨hf, by decide, (routes_agree_with_states _ _ _ _ steps).2.2.2 hf⟩

end Agreement

/-! ### Reported subscriptions -/

/-- The subscriptions that a step reports as open. -/
def Step.reported : Step → Answer → List (Category × SubscriptionId)
  | .start, .started (.ok opened) => opened
  | .subscribe c, .subscribed (.ok id) => [(c, id)]
  | .subscribeWithRetry c _, .subscribed (.ok id) => [(c, id)]
  | _, _ => []

section Reports
variable {σ τ : Type} [BatchStore σ] [Node τ]

theorem Step.holds_of_reported {step : Step} {s : EventSink σ τ} (hs : s.manager.Agrees)
    {c : Category} {id : SubscriptionId} (h : (c, id) ∈ step.reported (step.run s).1) :
    (step.run s).2.manager.Holds c id ∧ s.manager.Kept (step.run s).2.manager := by
  cases step with
  | start =>
    change (c, id) ∈ Step.start.reported (.started (s.manager.subscribeAll _ _).1) at h
    cases hr : (s.manager.subscribeAll s.settings.subscribeRetries.toNat s.settings.eventTypes).1 with
    | error e => simp [hr, reported] at h
    | ok opened =>
      rw [hr] at h
      obtain ⟨hholds, hkept⟩ := Manager.holds_subscribeAll hs hr
      exact ⟨hholds (c, id) h, hkept⟩
  | subscribe d =>
    change (c, id) ∈ (Step.subscribe d).reported (.subscribed (s.manager.subscribe d).1) at h
    cases hr : (s.manager.subscribe d).1 with
    | error e => simp [hr, reported] at h
    | ok id' =>
      rw [hr] at h
      cases List.mem_singleton.mp h
      exact Manager.holds_subscribe hr
  | subscribeWithRetry d retries =>
    change (c, id) ∈ (Step.subscribeWithRetry d retries).reported
      (.subscribed (s.manager.subscribeWithRetry d retries).1) at h
    cases hr : (s.manager.subscribeWithRetry d retries).1 with
    | error e => simp [hr, reported] at h
    | ok id' =>
      rw [hr] at h
      cases List.mem_singleton.mp h
      exact Manager.holds_subscribeWithRetry hs hr
  | unsubscribe | push | notify | shutdown => cases h

/-- A subscription that a step reports is routed to its category, unless the category held the id before
without a route. That does not happen if the node hands out no id that is in use. -/
theorem reported_routes_iff (settings : Config.Ingest) (node : τ) (store : σ)
    (rules : Option Rules.Book) (steps : List Step) (step : Step) (c : Category) (id : SubscriptionId) :
    let first := new settings node store rules
    let before := (runAll steps first).2
    let (answer, after) := step.run before
    (c, id) ∈ step.reported answer →
      (after.manager.Routes c id ↔ (before.manager.state c = .subscribed id → before.manager.Routes c id)) ∧
        ((∀ g ∈ Manager.grants (movesAll (steps ++ [step]) first) first.manager, g.Fresh) →
          after.manager.Routes c id) := by
  intro first before hreported
  have hfirst : first.manager.Complete := complete_new settings node store rules
  have hbefore : before.manager.Agrees :=
    (runAll_eq_after steps first : before.manager = _) ▸ hfirst.agrees.after _
  obtain ⟨hholds, hkept⟩ := Step.holds_of_reported hbefore hreported
  refine ⟨hholds.routes_iff hkept, fun hf => hholds.routes ?_⟩
  have hafter : (step.run before).2.manager = first.manager.after (movesAll (steps ++ [step]) first) := by
    rw [← runAll_eq_after, runAll_append]
    rfl
  exact hafter ▸ hfirst.after hf

theorem reported_routes_of_distinct_ids :
    let before :=
      (runAll [.subscribe .publish] (new {} (⟨[5, 6]⟩ : PreparedNode) ({} : MemoryStore) none)).2
    let (answer, after) := (Step.subscribe .newObject).run before
    (.newObject, 6) ∈ (Step.subscribe .newObject).reported answer ∧ after.manager.Routes .newObject 6 := by
  intro before
  have hr : (Category.newObject, 6) ∈
      (Step.subscribe .newObject).reported ((Step.subscribe .newObject).run before).1 := by decide
  have hroutes := reported_routes_iff {} (⟨[5, 6]⟩ : PreparedNode) ({} : MemoryStore) none
    [.subscribe .publish] (.subscribe .newObject) .newObject 6 hr
  exact ⟨hr, hroutes.2 (by decide)⟩

end Reports

/-- A category whose registration failed holds an id that is not its own. Asked again, the sink reports
that id, also when no route is left for it. -/
theorem reported_without_route :
    ¬ ∀ (settings : Config.Ingest) (node : PreparedNode) (steps : List Step) (step : Step) (c : Category)
        (id : SubscriptionId),
        let before := (runAll steps (new settings node ({} : MemoryStore) none)).2
        let (answer, after) := step.run before
        (c, id) ∈ step.reported answer → after.manager.Routes c id := by
  intro h
  have hroutes := h {} ⟨[5, 5]⟩ [.subscribe .publish, .subscribe .newObject, .unsubscribe .publish]
    (.subscribe .newObject) .newObject 5 (by decide)
  exact absurd hroutes (by decide)

end EventIntake.EventSink
