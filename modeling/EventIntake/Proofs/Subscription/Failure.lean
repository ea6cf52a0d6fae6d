import EventIntake.Proofs.Queue.Threshold
import EventIntake.Proofs.Store.AllOrNothing
import EventIntake.Proofs.Subscription.Housing
import EventIntake.Proofs.Subscription.Shutdown

/-! What a request to subscribe or to unsubscribe leaves behind when it fails. -/
namespace EventIntake
open Event

/-- A buffer that cannot be stored is taken out all the same. -/
theorem Queue.release_eq_error {σ : Type} [BatchStore σ] {q q' : Queue} {s s' : σ} {id : SubscriptionId}
    {e : QueueError} (h : q.release id s = (.error e, q', s')) :
    ∃ source, e = .flush id (q.pending id).length source ∧ BatchStore.persist (q.pending id) s = (.error source, s') ∧
      q' = (q.remove id).2 := by
  cases hf : Sorted.find? id q.buffers with
  | none => simp [release, remove, hf] at h
  | some records =>
    have hpending : q.pending id = records := by rw [pending, hf, Option.getD_some]
    simp only [release, remove, hf, Option.map_some, flush] at h
    rw [hpending]
    rcases hp : BatchStore.persist records s with ⟨source | _, s₁⟩
    · rw [hp] at h
      cases h
      exact ⟨source, rfl, rfl, rfl⟩
    · rw [hp] at h
      cases h

namespace Subscription

namespace Manager

variable {σ τ : Type} {m : Manager σ τ}

/-! ### States that come back -/

theorem AllSubscribed.find?_eq_none (h : m.AllSubscribed) {c : Category} (hc : ∀ id, m.state c ≠ .subscribed id) :
    Sorted.find? c m.states = none := by
  cases hf : Sorted.find? c m.states with
  | none => rfl
  | some s =>
    obtain ⟨id, hid⟩ := h _ (Sorted.mem_of_find? hf)
    exact absurd (by rw [state, hf]; exact hid) (hc id)

/-- A category that had no state has none after its request was withdrawn. -/
theorem AllSubscribed.withdrawn (h : m.AllSubscribed) (hs : Sorted.Ascending m.states) {c : Category}
    (hc : ∀ id, m.state c ≠ .subscribed id) (s : State) (node : τ) :
    { m.setState c s with node := node }.clearState c = { m with node := node } := by
  have hnone := h.find?_eq_none hc
  have hstates : Sorted.erase c (Sorted.insert c s m.states) = m.states := by
    refine ((hs.insert c s).erase c).ext hs fun d => ?_
    rw [(hs.insert c s).find?_erase, Sorted.find?_insert]
    split
    · rename_i hd
      rw [hd, hnone]
    · rfl
  simp only [clearState, setState, hstates]

/-- A category that was subscribed holds its id again. -/
theorem reset_subscribed (hs : Sorted.Ascending m.states) {c : Category} {id : SubscriptionId}
    (hc : m.state c = .subscribed id) (s : State) (node : τ) :
    { m.setState c s with node := node }.setState c (.subscribed id) = { m with node := node } := by
  have hsome : Sorted.find? c m.states = some (.subscribed id) := by
    rw [state] at hc
    cases hf : Sorted.find? c m.states with
    | none => simp [hf] at hc
    | some s => simpa [hf] using hc
  have hstates : Sorted.insert c (.subscribed id) (Sorted.insert c s m.states) = m.states := by
    refine ((hs.insert c s).insert c _).ext hs fun d => ?_
    rw [Sorted.find?_insert, Sorted.find?_insert]
    split
    · rename_i hd
      rw [hd, hsome]
    · rfl
  simp only [setState, hstates]

/-! ### Requests that fail -/

/-- What a request to subscribe leaves behind when it fails. -/
def SubscribeLeaves (c : Category) (m m' : Manager σ τ) : LifecycleError → Prop
  | .shutDown => m' = m
  | .transport d _ => d = c ∧ m' = { m with node := m'.node }
  | .registration d id source =>
    d = c ∧ (∃ route, m.registry.lookup id = some route ∧ source = .alreadyRegistered id route.category) ∧
      m'.registry = m.registry ∧ m'.intake = m.intake ∧ m'.shutDown = m.shutDown ∧
      ∀ d, m'.state d = if d = c then .subscribed id else m.state d
  | .unsubscribeRejected _ _ | .flush _ _ _ => False

theorem subscribeLeaves [Node τ] (h : m.AllSubscribed) (ha : m.Agrees) (hm : m.Coherent) {c : Category}
    {e : LifecycleError} (he : (m.subscribe c).1 = .error e) : m.SubscribeLeaves c (m.subscribe c).2 e := by
  have ho := subscribed c m
  generalize (m.subscribe c).1 = result, (m.subscribe c).2 = m' at he ho ⊢
  cases ho with
  | refused =>
    cases he
    rfl
  | kept | opened => cases he
  | @failed _ node _ hc _ =>
    cases he
    rw [h.withdrawn ha.states hc]
    exact ⟨rfl, rfl⟩
  | @unrouted id _ node hd _ _ hr =>
    cases he
    have hopen : m.registry.closed = false := (hm.registry_closed.trans hm.shutDown.symm).trans hd
    have hpresent := (Registry.register_eq_error hr).resolve_left (by simp [hopen])
    exact ⟨rfl, hpresent, rfl, rfl, rfl,
      state_reset m c .subscribing (.subscribed id) node⟩

variable [BatchStore σ]

/-- What a request to unsubscribe leaves behind when it fails. -/
def UnsubscribeLeaves {κ : Type} [AllOrNothing σ κ] [Node τ] (c : Category) (m m' : Manager σ τ) :
    LifecycleError → Prop
  | .transport d _ =>
    d = c ∧ m' = { m with node := m'.node } ∧
      ∃ id, m.state c = .subscribed id ∧
        m'.asked (.unsubscribe c) = [(c, .unsubscribe id (Node.unsubscribe id m'.node).1)]
  | .unsubscribeRejected d id =>
    d = c ∧ m' = { m with node := m'.node } ∧ m.state c = .subscribed id ∧
      m'.asked (.unsubscribe c) = [(c, .unsubscribe id (Node.unsubscribe id m'.node).1)]
  | .flush d id source =>
    d = c ∧ m.state c = .subscribed id ∧
      (∃ fault, source = .flush id (m.intake.queue.pending id).length fault) ∧
      (∀ d, m'.state d = if d = c then .unsubscribed else m.state d) ∧
      (∀ j, Sorted.find? j m'.registry.routes = if j = id then none else Sorted.find? j m.registry.routes) ∧
      (∀ j, m'.intake.queue.pending j = if j = id then [] else m.intake.queue.pending j) ∧
      AllOrNothing.contents m'.intake.store = AllOrNothing.contents m.intake.store ∧
      m'.registry.closed = m.registry.closed ∧ m'.shutDown = m.shutDown
  | .registration _ _ _ | .shutDown => False

theorem unsubscribeLeaves {κ : Type} [AllOrNothing σ κ] [Node τ] (ha : m.Agrees)
    (hm : m.Coherent) {c : Category} {e : LifecycleError} (he : (m.unsubscribe c).1 = .error e) :
    m.UnsubscribeLeaves c (m.unsubscribe c).2 e := by
  have ho := unsubscribed c m
  generalize (m.unsubscribe c).1 = result, (m.unsubscribe c).2 = m' at he ho ⊢
  have hrepeated : ∀ {id} (node : τ), m.state c = .subscribed id →
      ({ m with node := node } : Manager σ τ).asked (.unsubscribe c) =
        [(c, .unsubscribe id (Node.unsubscribe id node).1)] :=
    fun node hs => asked_unsubscribe (m := { m with node := node }) hs rfl
  cases ho with
  | idle | unrouted => cases he
  | @failed id _ node hs _ =>
    cases he
    rw [reset_subscribed ha.states hs]
    exact ⟨rfl, rfl, id, hs, hrepeated node hs⟩
  | @rejected id node hs _ =>
    cases he
    rw [reset_subscribed ha.states hs]
    exact ⟨rfl, rfl, hs, hrepeated node hs⟩
  | @released id node result intake hs _ _ hrel =>
    cases result with
    | ok _ => cases he
    | error error =>
      cases he
      simp only [Intake.release] at hrel
      rcases hr : m.intake.queue.release id m.intake.store with ⟨result, queue, store⟩
      rw [hr] at hrel
      cases hrel
      obtain ⟨fault, hsource, hpersist, rfl⟩ := Queue.release_eq_error hr
      refine ⟨rfl, hs, ⟨fault, hsource⟩, state_withdrawn ha.states c (.unsubscribing id) node,
        fun j => ha.routes.find?_erase j id, Queue.pending_remove hm.sound id,
        AllOrNothing.contents_of_error hpersist, rfl, rfl⟩

end Manager

end Subscription

end EventIntake
