import EventIntake.Proofs.Event.Category
import EventIntake.Proofs.Subscription.Moves

/-! The routes of a manager and the states of its categories agree: a route leads to the category that
holds its id. -/
namespace EventIntake.Subscription
open Event

theorem Registry.removeFor_true_iff {η : Type} (id : SubscriptionId) (c : Category) (r : Registry η) :
    (r.removeFor id c).1 = true ↔ ∃ route, Sorted.find? id r.routes = some route ∧ route.category = c := by
  simp only [Registry.removeFor]
  cases Sorted.find? id r.routes with
  | none => simp
  | some present =>
    by_cases h : present.category = c <;> simp [h]

theorem Registry.register_eq_error {η : Type} {id : SubscriptionId} {c : Category} {handler : η}
    {r : Registry η} {e : RegistryError} (h : r.register id c handler = .error e) :
    r.closed = true ∨ ∃ route, r.lookup id = some route ∧ e = .alreadyRegistered id route.category := by
  simp only [Registry.register] at h
  split at h
  · exact .inl ‹_›
  · rename_i hopen
    split at h
    · rename_i route hroute
      cases h
      exact .inr ⟨route, (if_neg hopen).trans hroute, rfl⟩
    · cases h

namespace Manager

variable {σ τ : Type}

/-! ### States -/

theorem state_reset (m : Manager σ τ) (c : Category) (s s' : State) (node : τ) (d : Category) :
    ({ m.setState c s with node := node }.setState c s').state d = if d = c then s' else m.state d := by
  simp only [state, setState, Sorted.find?_insert]
  split <;> rfl

theorem state_withdrawn {m : Manager σ τ} (h : Sorted.Ascending m.states) (c : Category) (s : State)
    (node : τ) (d : Category) :
    ({ m.setState c s with node := node }.clearState c).state d =
      if d = c then .unsubscribed else m.state d := by
  simp only [state, setState, clearState, (h.insert c s).find?_erase, Sorted.find?_insert]
  split <;> rfl

theorem mem_active {m : Manager σ τ} (h : Sorted.Ascending m.states) (c : Category) (id : SubscriptionId) :
    (c, id) ∈ m.active ↔ m.state c = .subscribed id := by
  have hs : m.state c = .subscribed id ↔ (c, State.subscribed id) ∈ m.states := by
    rw [← h.find?_eq_some_iff, state]
    cases Sorted.find? c m.states <;> simp
  rw [hs, active, List.mem_filterMap]
  constructor
  · rintro ⟨⟨d, s⟩, hd, he⟩
    cases s <;> simp_all
  · exact fun hm => ⟨_, hm, rfl⟩

/-- Every route leads to the category that holds its id, and every category is either subscribed or
unsubscribed. -/
structure Agrees (m : Manager σ τ) : Prop where
  states : Sorted.Ascending m.states
  routes : Sorted.Ascending m.registry.routes
  settled : ∀ c, m.state c = .unsubscribed ∨ ∃ id, m.state c = .subscribed id
  held : ∀ entry ∈ m.registry.routes, m.state entry.2.category = .subscribed entry.1

/-- Every id that a category holds is routed to it. -/
def Covered (m : Manager σ τ) : Prop :=
  ∀ c id, m.state c = .subscribed id → ∃ entry ∈ m.registry.routes, entry.1 = id ∧ entry.2.category = c

section Change
variable {m m' : Manager σ τ} {c : Category} {s : State}

/-- Only one category changed its state, and no route to another was added. -/
theorem Agrees.of_change (h : m.Agrees) (hstates : Sorted.Ascending m'.states)
    (hroutes : Sorted.Ascending m'.registry.routes)
    (hstate : ∀ d, m'.state d = if d = c then s else m.state d)
    (hsettled : s = .unsubscribed ∨ ∃ id, s = .subscribed id)
    (hown : ∀ entry ∈ m'.registry.routes, entry.2.category = c → s = .subscribed entry.1)
    (hold : ∀ entry ∈ m'.registry.routes, entry.2.category ≠ c → entry ∈ m.registry.routes) :
    m'.Agrees where
  states := hstates
  routes := hroutes
  settled d := by
    rw [hstate]
    split
    · exact hsettled
    · exact h.settled d
  held entry he := by
    rw [hstate]
    split
    · exact hown entry he ‹_›
    · exact h.held entry (hold entry he ‹_›)

/-- Only one category changed its state, and no route to another went. -/
theorem Covered.of_change (h : m.Covered) (hstate : ∀ d, m'.state d = if d = c then s else m.state d)
    (hown : ∀ id, s = .subscribed id → ∃ entry ∈ m'.registry.routes, entry.1 = id ∧ entry.2.category = c)
    (hkept : ∀ entry ∈ m.registry.routes, entry.2.category ≠ c → entry ∈ m'.registry.routes) :
    m'.Covered := by
  intro d id hs
  rw [hstate] at hs
  split at hs
  · rename_i hd
    exact hd ▸ hown id hs
  · rename_i hd
    obtain ⟨entry, he, hid, rfl⟩ := h d id hs
    exact ⟨entry, hkept entry he hd, hid, rfl⟩

end Change

/-! ### Opening and closing -/

/-- A category that is not subscribed has no route. -/
theorem Agrees.category_ne {m : Manager σ τ} (h : m.Agrees) {c : Category}
    (hc : ∀ id, m.state c ≠ .subscribed id) {entry : SubscriptionId × Route PersistingHandler}
    (he : entry ∈ m.registry.routes) : entry.2.category ≠ c :=
  fun heq => hc entry.1 (heq ▸ h.held entry he)

theorem Agrees.subscribe [Node τ] {m : Manager σ τ} (h : m.Agrees) (c : Category) :
    (m.subscribe c).2.Agrees := by
  generalize hr : (m.subscribe c).1 = result, hm : (m.subscribe c).2 = m'
  have ho := subscribed c m
  rw [hr, hm] at ho
  cases ho with
  | refused | kept => exact h
  | failed _ hc _ =>
    exact h.of_change ((h.states.insert _ _).erase _) h.routes (state_withdrawn h.states c _ _) (.inl rfl)
      (fun entry he heq => absurd heq (h.category_ne hc he)) (fun entry he _ => he)
  | unrouted _ hc _ _ =>
    exact h.of_change ((h.states.insert _ _).insert _ _) h.routes (state_reset m c _ _ _) (.inr ⟨_, rfl⟩)
      (fun entry he heq => absurd heq (h.category_ne hc he)) (fun entry he _ => he)
  | opened _ hc _ hreg =>
    obtain ⟨_, _, rfl⟩ := Registry.register_eq_ok hreg
    refine h.of_change ((h.states.insert _ _).insert _ _) (h.routes.insert _ _) (state_reset m c _ _ _)
      (.inr ⟨_, rfl⟩) (fun entry he heq => ?_) (fun entry he hne => ?_)
    · rcases Sorted.mem_insert he with rfl | he
      · rfl
      · exact absurd heq (h.category_ne hc he)
    · rcases Sorted.mem_insert he with rfl | he
      · exact absurd rfl hne
      · exact he

/-- The only route to a subscribed category is that of its id. -/
theorem Agrees.id_eq {m : Manager σ τ} (h : m.Agrees) {c : Category} {id : SubscriptionId}
    (hc : m.state c = .subscribed id) {entry : SubscriptionId × Route PersistingHandler}
    (he : entry ∈ m.registry.routes) (heq : entry.2.category = c) : entry.1 = id := by
  have hs := h.held entry he
  rw [heq, hc] at hs
  exact (State.subscribed.inj hs).symm

theorem Agrees.unsubscribe [BatchStore σ] [Node τ] {m : Manager σ τ} (h : m.Agrees) (c : Category) :
    (m.unsubscribe c).2.Agrees := by
  generalize hr : (m.unsubscribe c).1 = result, hm : (m.unsubscribe c).2 = m'
  have ho := unsubscribed c m
  rw [hr, hm] at ho
  cases ho with
  | idle => exact h
  | failed hc _ | rejected hc _ =>
    exact h.of_change ((h.states.insert _ _).insert _ _) h.routes (state_reset m c _ _ _) (.inr ⟨_, rfl⟩)
      (fun entry he heq => congrArg State.subscribed (h.id_eq hc he heq).symm) (fun entry he _ => he)
  | unrouted hc _ hrem =>
    refine h.of_change ((h.states.insert _ _).erase _) h.routes (state_withdrawn h.states c _ _) (.inl rfl)
      (fun entry he heq => ?_) (fun entry he _ => he)
    -- A route of the id to this category would have been removed.
    have hid := h.id_eq hc he heq
    have hf := h.routes.find?_eq_some_iff.mpr he
    have ht := (Registry.removeFor_true_iff _ c m.registry).mpr ⟨entry.2, hid ▸ hf, heq⟩
    rw [hrem] at ht
    cases ht
  | released hc _ _ _ =>
    refine h.of_change ((h.states.insert _ _).erase _) (h.routes.erase _) (state_withdrawn h.states c _ _)
      (.inl rfl) (fun entry he heq => ?_) (fun entry he _ => (h.routes.mem_erase_iff.mp he).1)
    obtain ⟨he, hne⟩ := h.routes.mem_erase_iff.mp he
    exact absurd (h.id_eq hc he heq) hne

/-- Routes and states agree after every move. -/
theorem Agrees.move [BatchStore σ] [Node τ] {m : Manager σ τ} (h : m.Agrees) (move : Move) :
    (move.run m).Agrees := by
  cases move with
  | subscribe c => exact h.subscribe c
  | unsubscribe c => exact h.unsubscribe c
  | push | refuse | close => exact ⟨h.states, h.routes, h.settled, h.held⟩

theorem Agrees.after [BatchStore σ] [Node τ] {m : Manager σ τ} (h : m.Agrees) (moves : List Move) :
    (m.after moves).Agrees := by
  induction moves generalizing m with
  | nil => exact h
  | cons move rest ih => exact ih (h.move move)

/-! ### Ids in use -/

/-- An id that the node hands out, and the subscriptions that are active at that moment. -/
structure Grant where
  id : SubscriptionId
  active : List (Category × SubscriptionId)
  deriving DecidableEq, Repr

/-- No category holds the id. -/
def Grant.Fresh (g : Grant) : Prop := g.id ∉ g.active.map Prod.snd

instance : DecidablePred Grant.Fresh := fun g => inferInstanceAs (Decidable (g.id ∉ g.active.map Prod.snd))

/-- The id that a request to subscribe is granted. Nothing is asked of the node after a shutdown or for
a subscribed category. -/
def grant? [Node τ] (c : Category) (m : Manager σ τ) : Option Grant :=
  if m.shutDown then none
  else match m.state c, (Node.subscribe c m.node).1 with
    | .subscribed _, _ => none
    | _, .ok id => some ⟨id, m.active⟩
    | _, .error _ => none

/-- The ids that the node hands out during moves, in order. -/
def grants [BatchStore σ] [Node τ] : List Move → Manager σ τ → List Grant
  | [], _ => []
  | move :: rest, m =>
    (match move with
      | .subscribe c => (m.grant? c).toList
      | _ => []) ++ grants rest (move.run m)

theorem grant?_eq_some [Node τ] {c : Category} {m : Manager σ τ} {id : SubscriptionId} {node : τ}
    (hd : m.shutDown = false) (hc : ∀ id, m.state c ≠ .subscribed id)
    (hn : Node.subscribe c m.node = (.ok id, node)) : m.grant? c = some ⟨id, m.active⟩ := by
  cases hs : m.state c <;> simp_all [grant?]

/-- Routes and held ids are the same, and the registry is open until the shutdown. -/
structure Complete (m : Manager σ τ) : Prop where
  agrees : m.Agrees
  covered : m.Covered
  closed : m.registry.closed = true → m.shutDown = true

theorem Complete.subscribe [Node τ] {m : Manager σ τ} (h : m.Complete) (c : Category)
    (hf : ∀ g, m.grant? c = some g → g.Fresh) : (m.subscribe c).2.Complete := by
  have hagrees := h.agrees.subscribe c
  have ho := subscribed c m
  generalize hr : (m.subscribe c).1 = result, hm : (m.subscribe c).2 = m' at hagrees ho ⊢
  cases ho with
  | refused | kept => exact h
  | @failed _ node =>
    exact ⟨hagrees, h.covered.of_change (state_withdrawn h.agrees.states c .subscribing node)
      (fun id hs => by cases hs) (fun entry he _ => he), h.closed⟩
  | unrouted hd hc hn hreg =>
    -- The present route leads to a category that holds the id.
    have hfresh := hf _ (grant?_eq_some hd hc hn)
    rcases Registry.register_eq_error hreg with hcl | ⟨route, hroute, _⟩
    · rw [h.closed hcl] at hd
      cases hd
    · have hheld := h.agrees.held _ (Registry.mem_of_lookup hroute)
      have hactive := (mem_active h.agrees.states _ _).mpr hheld
      exact absurd (List.mem_map_of_mem hactive) hfresh
  | @opened id node _ _ _ _ hreg =>
    obtain ⟨_, hnone, rfl⟩ := Registry.register_eq_ok hreg
    refine ⟨hagrees, h.covered.of_change (state_reset m c .subscribing (.subscribed id) node)
      (fun id' hs => ?_) (fun entry he _ => ?_), h.closed⟩
    · cases hs
      exact ⟨_, h.agrees.routes.mem_insert_iff.mpr (.inl rfl), rfl, rfl⟩
    · refine h.agrees.routes.mem_insert_iff.mpr (.inr ⟨he, fun hid => ?_⟩)
      exact Sorted.find?_eq_none_iff.mp hnone (hid ▸ List.mem_map_of_mem he)

theorem Complete.unsubscribe [BatchStore σ] [Node τ] {m : Manager σ τ} (h : m.Complete) (c : Category) :
    (m.unsubscribe c).2.Complete := by
  have hagrees := h.agrees.unsubscribe c
  have ho := unsubscribed c m
  generalize hr : (m.unsubscribe c).1 = result, hm : (m.unsubscribe c).2 = m' at hagrees ho ⊢
  cases ho with
  | idle => exact h
  | @failed id _ node hc _ | @rejected id node hc _ =>
    exact ⟨hagrees, h.covered.of_change (state_reset m c (.unsubscribing id) (.subscribed id) node)
      (fun id' hs => h.covered c id' (hc.trans hs)) (fun entry he _ => he), h.closed⟩
  | @unrouted id node _ _ _ =>
    exact ⟨hagrees, h.covered.of_change (state_withdrawn h.agrees.states c (.unsubscribing id) node)
      (fun id' hs => by cases hs) (fun entry he _ => he), h.closed⟩
  | @released id node _ _ _ _ hrem _ =>
    refine ⟨hagrees, h.covered.of_change (state_withdrawn h.agrees.states c (.unsubscribing id) node)
      (fun id' hs => by cases hs) (fun entry he hne => ?_), h.closed⟩
    refine h.agrees.routes.mem_erase_iff.mpr ⟨he, fun hid => hne ?_⟩
    obtain ⟨route, hroute, hcat⟩ :=
      (Registry.removeFor_true_iff id c m.registry).mp (congrArg Prod.fst hrem)
    have hf := h.agrees.routes.find?_eq_some_iff.mpr he
    rw [hid, hroute] at hf
    exact Option.some.inj hf ▸ hcat

theorem Complete.after [BatchStore σ] [Node τ] {m : Manager σ τ} (h : m.Complete) {moves : List Move}
    (hf : ∀ g ∈ grants moves m, g.Fresh) : (m.after moves).Complete := by
  induction moves generalizing m with
  | nil => exact h
  | cons move rest ih =>
    have hrest := fun g hg => hf g (List.mem_append_right _ hg)
    refine ih ?_ hrest
    cases move with
    | subscribe c =>
      exact h.subscribe c fun g hg => hf g (List.mem_append_left _ (by simp [hg]))
    | unsubscribe c => exact h.unsubscribe c
    | push => exact ⟨h.agrees.move _, h.covered, h.closed⟩
    | refuse | close => exact ⟨h.agrees.move _, h.covered, fun _ => rfl⟩

end Manager

end EventIntake.Subscription
