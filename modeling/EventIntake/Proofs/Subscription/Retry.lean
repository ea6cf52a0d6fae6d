import EventIntake.Proofs.Subscription.Failure
import EventIntake.Proofs.Subscription.Routing

/-! How often a request to subscribe is made again, and where a list of them stops. -/
namespace EventIntake.Subscription
open Event

/-! ### Answers of the node -/

/-- The answer to a request that lost its connection. -/
def ScriptedNode.lost : TransportError := .connection "connection reset"

def ScriptedNode.refused (c : Category) : TransportError := .rejected ("subscription to " ++ c.name ++ " refused")

namespace NotingNode
variable {c : Category} {n : NotingNode ScriptedNode}

/-- The node after requests for a category that lost their connection. -/
def lose (c : Category) (k : Nat) (n : NotingNode ScriptedNode) : NotingNode ScriptedNode :=
  ⟨{ n.node with transientFailures := n.node.transientFailures - k },
    n.noted ++ .replicate k (.subscribe c (.error ScriptedNode.lost))⟩

/-- The node after it handed out its next id. -/
def grant (c : Category) (n : NotingNode ScriptedNode) : NotingNode ScriptedNode :=
  ⟨{ n.node with subscribed := n.node.subscribed ++ [c], nextId := n.node.nextId + 1 },
    n.noted ++ [.subscribe c (.ok n.node.nextId)]⟩

theorem lose_zero : n.lose c 0 = n := by simp [lose]

theorem lose_lose (j k : Nat) : (n.lose c j).lose c k = n.lose c (j + k) := by
  simp [lose, Nat.sub_sub]

theorem subscribe_of_rejecting (h : n.node.rejecting = true) :
    Node.subscribe c n =
      (.error (ScriptedNode.refused c), ⟨n.node, n.noted ++ [.subscribe c (.error (ScriptedNode.refused c))]⟩) := by
  simp [Node.subscribe, subscribe, ScriptedNode.subscribe, h, ScriptedNode.refused]

theorem subscribe_of_failing (h : n.node.rejecting = false) (hk : 0 < n.node.transientFailures) :
    Node.subscribe c n = (.error ScriptedNode.lost, n.lose c 1) := by
  obtain ⟨k, hk⟩ := Nat.exists_eq_add_one.mpr hk
  simp [Node.subscribe, subscribe, ScriptedNode.subscribe, h, hk, ScriptedNode.lost, lose]

theorem subscribe_of_ready (h : n.node.rejecting = false) (hk : n.node.transientFailures = 0) :
    Node.subscribe c n = (.ok n.node.nextId, n.grant c) := by
  simp [Node.subscribe, subscribe, ScriptedNode.subscribe, h, hk, grant]

end NotingNode

namespace Manager

variable {σ τ : Type}

/-! ### One category -/

/-- The category has no subscription, and a request for one is not refused. -/
structure Idle (c : Category) (m : Manager σ τ) : Prop where
  allSubscribed : m.AllSubscribed
  ascending : Sorted.Ascending m.states
  shutDown : m.shutDown = false
  state : ∀ id, m.state c ≠ .subscribed id

theorem Idle.with_node {c : Category} {m : Manager σ τ} (h : m.Idle c) (node : τ) :
    { m with node := node }.Idle c :=
  ⟨h.allSubscribed, h.ascending, h.shutDown, h.state⟩

section Attempts
variable [Node τ] {c : Category} {m : Manager σ τ}

/-- A request that the node does not grant changes nothing but the node. -/
theorem Idle.subscribe_of_error (h : m.Idle c) {e : TransportError} {node : τ}
    (hn : Node.subscribe c m.node = (.error e, node)) :
    m.subscribe c = (.error (.transport c e), { m with node := node }) := by
  rw [← h.allSubscribed.withdrawn h.ascending h.state .subscribing node]
  exact (Subscribed.failed h.shutDown h.state hn).eq

theorem subscribeWithRetry_of_final (h : ∀ e, (m.subscribe c).1 = .error e → e.retryable = false) (retries : Nat) :
    m.subscribeWithRetry c retries = m.subscribe c := by
  cases retries with
  | zero => rfl
  | succ retries =>
    rw [subscribeWithRetry]
    rcases hs : m.subscribe c with ⟨e | id, m'⟩
    · have hfinal : e.retryable = false := h e (congrArg Prod.fst hs)
      simp [hfinal]
    · rfl

theorem subscribeWithRetry_of_shutDown (h : m.shutDown = true) (c : Category) (retries : Nat) :
    m.subscribeWithRetry c retries = (.error .shutDown, m) := by
  have hs : m.subscribe c = (.error .shutDown, m) := (Subscribed.refused h).eq
  rw [subscribeWithRetry_of_final (fun e he => ?_) retries, hs]
  rw [hs] at he
  cases he
  rfl

theorem subscribeWithRetry_of_subscribed (hd : m.shutDown = false) {id : SubscriptionId} (hs : m.state c = .subscribed id)
    (retries : Nat) : m.subscribeWithRetry c retries = (.ok id, m) := by
  have hs : m.subscribe c = (.ok id, m) := (Subscribed.kept hd hs).eq
  rw [subscribeWithRetry_of_final (fun e he => ?_) retries, hs]
  rw [hs] at he
  cases he

theorem subscribeWithRetry_of_retryable {e : LifecycleError} {m' : Manager σ τ} (h : m.subscribe c = (.error e, m'))
    (he : e.retryable = true) (retries : Nat) :
    m.subscribeWithRetry c (retries + 1) = m'.subscribeWithRetry c retries := by
  simp [subscribeWithRetry, h, he]

/-- A granted request ends the attempts, whether its id can be used or not. -/
theorem subscribeWithRetry_of_ok {id : SubscriptionId} {node : τ}
    (hn : Node.subscribe c m.node = (.ok id, node)) (retries : Nat) :
    m.subscribeWithRetry c retries = m.subscribe c := by
  refine subscribeWithRetry_of_final (fun e he => ?_) retries
  have ho := subscribed c m
  rw [he] at ho
  generalize (m.subscribe c).2 = m' at ho
  cases ho with
  | refused | unrouted => rfl
  | failed _ _ hn' => cases hn.symm.trans hn'

end Attempts

variable {c : Category} {m : Manager σ (NotingNode ScriptedNode)}

theorem Idle.subscribeWithRetry_of_rejecting (h : m.Idle c) (hr : m.node.node.rejecting = true) (retries : Nat) :
    m.subscribeWithRetry c retries =
      (.error (.transport c (ScriptedNode.refused c)),
        { m with node := ⟨m.node.node, m.node.noted ++ [.subscribe c (.error (ScriptedNode.refused c))]⟩ }) := by
  have hs := h.subscribe_of_error (NotingNode.subscribe_of_rejecting hr)
  rw [← hs]
  refine subscribeWithRetry_of_final (fun e he => ?_) retries
  rw [hs] at he
  cases he
  rfl

/-- More failures to come than retries use up every attempt. -/
theorem Idle.subscribeWithRetry_of_lt (h : m.Idle c) (hr : m.node.node.rejecting = false) {retries : Nat}
    (hlt : retries < m.node.node.transientFailures) :
    m.subscribeWithRetry c retries =
      (.error (.transport c ScriptedNode.lost), { m with node := m.node.lose c (retries + 1) }) := by
  induction retries generalizing m with
  | zero => exact h.subscribe_of_error (NotingNode.subscribe_of_failing hr hlt)
  | succ retries ih =>
    have hs := h.subscribe_of_error (NotingNode.subscribe_of_failing (c := c) hr (by omega))
    have hrest : retries < (m.node.lose c 1).node.transientFailures := Nat.lt_sub_of_add_lt hlt
    rw [subscribeWithRetry_of_retryable hs rfl, ih (h.with_node (m.node.lose c 1)) hr hrest, NotingNode.lose_lose, Nat.add_comm 1]

/-- With enough retries the last request is the one that comes after all failures. -/
theorem Idle.subscribeWithRetry_of_le (h : m.Idle c) (hr : m.node.node.rejecting = false) {retries : Nat}
    (hle : m.node.node.transientFailures ≤ retries) :
    m.subscribeWithRetry c retries =
      { m with node := m.node.lose c m.node.node.transientFailures }.subscribe c := by
  induction retries generalizing m with
  | zero =>
    rw [Nat.le_zero.mp hle, NotingNode.lose_zero]
    rfl
  | succ retries ih =>
    rcases Nat.eq_zero_or_pos m.node.node.transientFailures with hk | hk
    · rw [subscribeWithRetry_of_ok (NotingNode.subscribe_of_ready hr hk), hk, NotingNode.lose_zero]
    · have hs := h.subscribe_of_error (NotingNode.subscribe_of_failing (c := c) hr hk)
      have hrest : (m.node.lose c 1).node.transientFailures ≤ retries := Nat.sub_le_of_le_add hle
      have hall : 1 + (m.node.lose c 1).node.transientFailures = m.node.node.transientFailures :=
        Nat.add_sub_cancel' hk
      rw [subscribeWithRetry_of_retryable hs rfl, ih (h.with_node (m.node.lose c 1)) hr hrest, NotingNode.lose_lose, hall]

/-- What became of the manager once the node handed out an id. -/
structure Granted (c : Category) (id : SubscriptionId) (m m' : Manager σ (NotingNode ScriptedNode))
    (result : Except LifecycleError SubscriptionId) : Prop where
  state : ∀ d, m'.state d = if d = c then .subscribed id else m.state d
  intake : m'.intake = m.intake
  shutDown : m'.shutDown = m.shutDown
  route : match m.registry.lookup id with
    | some route =>
      result = .error (.registration c id (.alreadyRegistered id route.category)) ∧ m'.registry = m.registry
    | none => result = .ok id ∧ m.registry.register id c ⟨c⟩ = .ok m'.registry

theorem Idle.granted (h : m.Idle c) (ho : m.registry.closed = false) {id : SubscriptionId}
    {node : NotingNode ScriptedNode} (hn : Node.subscribe c m.node = (.ok id, node)) :
    (m.subscribe c).2.node = node ∧ m.Granted c id (m.subscribe c).2 (m.subscribe c).1 := by
  have hs := subscribed c m
  generalize (m.subscribe c).1 = result, (m.subscribe c).2 = m' at hs ⊢
  have hopen : ∀ id, m.registry.lookup id = Sorted.find? id m.registry.routes := fun id => by simp [Registry.lookup, ho]
  cases hs with
  | refused hd => cases hd.symm.trans h.shutDown
  | kept _ hc => exact absurd hc (h.state _)
  | failed _ _ hn' => cases hn.symm.trans hn'
  | unrouted _ _ hn' hreg =>
    cases hn.symm.trans hn'
    obtain ⟨route, hroute, rfl⟩ := (Registry.register_eq_error hreg).resolve_left (by simp [ho])
    exact ⟨rfl, state_reset m c .subscribing _ _, rfl, rfl, by simp [hroute]; rfl⟩
  | opened _ _ hn' hreg =>
    cases hn.symm.trans hn'
    have hnone := (hopen id).trans (Registry.register_eq_ok hreg).2.1
    exact ⟨rfl, state_reset m c .subscribing _ _, rfl, rfl, by simp [hnone, hreg]⟩

/-- With enough retries the node hands out an id, behind all the failures that were to come. -/
theorem Idle.granted_of_le (h : m.Idle c) (ho : m.registry.closed = false) (hr : m.node.node.rejecting = false)
    {retries : Nat} (hle : m.node.node.transientFailures ≤ retries) :
    (m.subscribeWithRetry c retries).2.node = (m.node.lose c m.node.node.transientFailures).grant c ∧
      m.Granted c m.node.node.nextId (m.subscribeWithRetry c retries).2 (m.subscribeWithRetry c retries).1 := by
  have hready : (m.node.lose c m.node.node.transientFailures).node.transientFailures = 0 := Nat.sub_self _
  rw [h.subscribeWithRetry_of_le hr hle]
  obtain ⟨hnode, hstate, hintake, hshut, hroute⟩ := (h.with_node (m.node.lose c m.node.node.transientFailures)).granted ho
    (NotingNode.subscribe_of_ready hr hready)
  exact ⟨hnode, hstate, hintake, hshut, hroute⟩

/-! ### Lists of categories -/

section List
variable [Node τ]

theorem subscribeAll_append (retries : Nat) (first rest : List Category) (m : Manager σ τ) :
    m.subscribeAll retries (first ++ rest) =
      match m.subscribeAll retries first with
      | (.error e, m₁) => (.error e, m₁)
      | (.ok opened, m₁) =>
        ((m₁.subscribeAll retries rest).1.map (opened ++ ·), (m₁.subscribeAll retries rest).2) := by
  induction first generalizing m with
  | nil => rcases h : m.subscribeAll retries rest with ⟨e | later, m₁⟩ <;> simp [subscribeAll, Except.map, h]
  | cons c first ih =>
    simp only [List.cons_append, subscribeAll]
    rcases m.subscribeWithRetry c retries with ⟨e | id, m₁⟩
    · rfl
    · simp only [ih]
      rcases m₁.subscribeAll retries first with ⟨e | opened, m₂⟩
      · rfl
      · dsimp only [Except.map]
        rcases m₂.subscribeAll retries rest with ⟨e | later, m₃⟩ <;> rfl

/-- Every category of the list gets its pair. -/
theorem map_fst_subscribeAll {retries : Nat} {categories : List Category} {m : Manager σ τ}
    {opened : List (Category × SubscriptionId)} (h : (m.subscribeAll retries categories).1 = .ok opened) :
    opened.map Prod.fst = categories := by
  induction categories generalizing m opened with
  | nil =>
    cases h
    rfl
  | cons c rest ih =>
    simp only [subscribeAll] at h
    rcases hc : m.subscribeWithRetry c retries with ⟨e | id, m₁⟩
    · simp [hc] at h
    · rcases hr : m₁.subscribeAll retries rest with ⟨e | later, m₂⟩
      · simp [hc, hr, Except.map] at h
      · simp only [hc, hr, Except.map] at h
        cases h
        exact congrArg (c :: ·) (ih (congrArg Prod.fst hr))

/-- The categories before the first that fails were all subscribed, and the list ends with its failure. -/
theorem subscribeAll_eq_error {retries : Nat} {categories : List Category} {m m' : Manager σ τ} {e : LifecycleError}
    (h : m.subscribeAll retries categories = (.error e, m')) :
    ∃ before c rest opened m₁, categories = before ++ c :: rest ∧ m.subscribeAll retries before = (.ok opened, m₁) ∧
      m₁.subscribeWithRetry c retries = (.error e, m') := by
  induction categories generalizing m with
  | nil => cases h
  | cons c rest ih =>
    simp only [subscribeAll] at h
    rcases hc : m.subscribeWithRetry c retries with ⟨e' | id, m₁⟩
    · simp only [hc] at h
      cases h
      exact ⟨[], c, rest, [], m, rfl, rfl, hc⟩
    · rcases hr : m₁.subscribeAll retries rest with ⟨e' | later, m₂⟩
      · simp only [hc, hr, Except.map] at h
        cases h
        obtain ⟨before, d, rest', opened, m₃, rfl, hbefore, hd⟩ := ih hr
        exact ⟨c :: before, d, rest', (c, id) :: opened, m₃, rfl, by simp [subscribeAll, hc, hbefore, Except.map], hd⟩
      · simp [hc, hr, Except.map] at h

/-! ### What is asked for them -/

theorem mem_retryMoves {retries : Nat} {c : Category} {m : Manager σ τ} {move : Move} (h : move ∈ m.retryMoves c retries) :
    move = .subscribe c := by
  induction retries generalizing m with
  | zero => exact List.mem_singleton.mp h
  | succ retries ih =>
    simp only [retryMoves] at h
    rcases List.mem_cons.mp h with h | h
    · exact h
    · split at h
      · split at h
        · exact ih h
        · cases h
      · cases h

theorem mem_subscribeAllMoves {retries : Nat} {categories : List Category} {m : Manager σ τ} {move : Move}
    (h : move ∈ m.subscribeAllMoves retries categories) : ∃ c ∈ categories, move = .subscribe c := by
  induction categories generalizing m with
  | nil => cases h
  | cons c rest ih =>
    simp only [subscribeAllMoves] at h
    rcases List.mem_append.mp h with h | h
    · exact ⟨c, .head _, mem_retryMoves h⟩
    · split at h
      · cases h
      · obtain ⟨d, hd, rfl⟩ := ih h
        exact ⟨d, .tail _ hd, rfl⟩

theorem mem_askedAll [BatchStore σ] {categories : List Category} {moves : List Move} {m : Manager σ τ}
    (hm : ∀ move ∈ moves, ∃ c ∈ categories, move = .subscribe c) {entry : Category × Request}
    (h : entry ∈ askedAll moves m) : ∃ c ∈ categories, ∃ answer, entry.2 = .subscribe c answer := by
  induction moves generalizing m with
  | nil => cases h
  | cons move rest ih =>
    obtain ⟨hfirst, hrest⟩ := List.forall_mem_cons.mp hm
    rcases List.mem_append.mp h with h | h
    · obtain ⟨c, hc, rfl⟩ := hfirst
      simp only [asked] at h
      split at h
      · cases h
      · split at h
        · cases h
        · exact ⟨c, hc, _, congrArg Prod.snd (List.mem_singleton.mp h)⟩
    · exact ih hrest h

/-- Nothing is asked for a category that is not in the list. -/
theorem noted_subscribeAll [BatchStore σ] (retries : Nat) (categories : List Category) (m : Manager σ (NotingNode τ)) :
    ∃ asked, (m.subscribeAll retries categories).2.node.noted = m.node.noted ++ asked ∧
      ∀ request ∈ asked, ∃ c ∈ categories, ∃ answer, request = .subscribe c answer := by
  refine ⟨(askedAll (m.subscribeAllMoves retries categories) m).map Prod.snd, ?_, fun request hr => ?_⟩
  · rw [subscribeAll_snd]
    exact noted_after _ m
  · obtain ⟨entry, he, rfl⟩ := List.mem_map.mp hr
    exact mem_askedAll (fun _ => mem_subscribeAllMoves) he

/-- A subscribed category stays so while others are opened. -/
theorem state_subscribe_of_subscribed {m : Manager σ τ} (h : m.Agrees) (c : Category) {d : Category} {id : SubscriptionId}
    (hd : m.state d = .subscribed id) : (m.subscribe c).2.state d = .subscribed id := by
  have ho := subscribed c m
  generalize (m.subscribe c).1 = result, (m.subscribe c).2 = m' at ho ⊢
  have hne : (∀ id, m.state c ≠ .subscribed id) → d ≠ c := fun hc he => hc id (he ▸ hd)
  cases ho with
  | refused | kept => exact hd
  | failed _ hc _ => exact ((state_withdrawn h.states c _ _ d).trans (if_neg (hne hc))).trans hd
  | unrouted _ hc _ _ | opened _ hc _ _ => exact ((state_reset m c _ _ _ d).trans (if_neg (hne hc))).trans hd

theorem state_subscribeWithRetry_of_subscribed {m : Manager σ τ} (h : m.Agrees) (c : Category) (retries : Nat)
    {d : Category} {id : SubscriptionId} (hd : m.state d = .subscribed id) :
    (m.subscribeWithRetry c retries).2.state d = .subscribed id := by
  induction retries generalizing m with
  | zero => exact state_subscribe_of_subscribed h c hd
  | succ retries ih =>
    have hagrees := h.subscribe c
    have hstate := state_subscribe_of_subscribed h c hd
    simp only [subscribeWithRetry]
    generalize m.subscribe c = answer at hagrees hstate ⊢
    obtain ⟨e | id, m'⟩ := answer
    · dsimp only
      split
      · exact ih hagrees hstate
      · exact hstate
    · exact hstate

end List

end Manager

end EventIntake.Subscription
