import EventIntake.Proofs.Intake
import EventIntake.Subscription.Lifecycle

/-! All that opening and closing the subscription of a category can do, and what both leave alone. -/
namespace EventIntake.Subscription
open Event

theorem Registry.register_eq_ok {η : Type} {id : SubscriptionId} {c : Category} {handler : η}
    {r after : Registry η} (h : r.register id c handler = .ok after) :
    r.closed = false ∧ Sorted.find? id r.routes = none ∧
      after = { r with routes := Sorted.insert id ⟨c, handler⟩ r.routes } := by
  simp only [Registry.register] at h
  split at h
  · cases h
  · rename_i hc
    split at h
    · cases h
    · rename_i hf
      cases h
      exact ⟨by simpa using hc, hf, rfl⟩

theorem Registry.removeFor_cases {η : Type} (id : SubscriptionId) (c : Category)
    (r : Registry η) :
    r.removeFor id c = (false, r) ∨
      r.removeFor id c = (true, { r with routes := Sorted.erase id r.routes }) := by
  simp only [Registry.removeFor]
  split
  · split <;> simp
  · simp

namespace Manager

variable {σ τ : Type}

/-- Every route leads to the handler of its category, and the queue, the registry and the manager are
closed together. -/
structure Coherent (m : Manager σ τ) : Prop where
  sound : m.intake.queue.Sound
  matched : Intake.Matched m.registry
  registry_closed : m.registry.closed = m.intake.queue.closed
  shutDown : m.shutDown = m.intake.queue.closed

/-- Given records are taken. Nothing is closed, and the routes still match. -/
structure Carried [BatchStore σ] (given : List (SubscriptionId × Record)) (m m' : Manager σ τ) :
    Prop where
  took : m.intake.Took given m'.intake
  matched : Intake.Matched m.registry → Intake.Matched m'.registry
  queue_closed : m'.intake.queue.closed = m.intake.queue.closed
  registry_closed : m'.registry.closed = m.registry.closed
  shutDown : m'.shutDown = m.shutDown

namespace Carried
variable [BatchStore σ]

theorem refl {m : Manager σ τ} (hs : m.intake.queue.Sound) : Carried [] m m :=
  ⟨.refl hs, id, rfl, rfl, rfl⟩

theorem trans {as bs : List (SubscriptionId × Record)} {m₀ m₁ m₂ : Manager σ τ}
    (h : Carried as m₀ m₁) (h' : Carried bs m₁ m₂) : Carried (as ++ bs) m₀ m₂ where
  took := h.took.trans h'.took
  matched hm := h'.matched (h.matched hm)
  queue_closed := h'.queue_closed.trans h.queue_closed
  registry_closed := h'.registry_closed.trans h.registry_closed
  shutDown := h'.shutDown.trans h.shutDown

theorem coherent {given : List (SubscriptionId × Record)} {m m' : Manager σ τ}
    (h : Carried given m m') (hm : m.Coherent) : m'.Coherent where
  sound := h.took.sound
  matched := h.matched hm.matched
  registry_closed := by rw [h.registry_closed, h.queue_closed, hm.registry_closed]
  shutDown := by rw [h.shutDown, h.queue_closed, hm.shutDown]

end Carried

/-! ### Opening -/

section Subscribe
variable [Node τ]

/-- How a request to subscribe ends. -/
inductive Subscribed (c : Category) (m : Manager σ τ) :
    Except LifecycleError SubscriptionId → Manager σ τ → Prop
  | refused : m.shutDown = true → Subscribed c m (.error .shutDown) m
  | kept {id : SubscriptionId} :
      m.shutDown = false → m.state c = .subscribed id → Subscribed c m (.ok id) m
  | failed {e : TransportError} {node : τ} :
      m.shutDown = false → (∀ id, m.state c ≠ .subscribed id) →
      Node.subscribe c m.node = (.error e, node) →
      Subscribed c m (.error (.transport c e)) ({ m.setState c .subscribing with node := node }.clearState c)
  | unrouted {id : SubscriptionId} {e : RegistryError} {node : τ} :
      m.shutDown = false → (∀ id, m.state c ≠ .subscribed id) →
      Node.subscribe c m.node = (.ok id, node) → m.registry.register id c ⟨c⟩ = .error e →
      Subscribed c m (.error (.registration c id e))
        ({ m.setState c .subscribing with node := node }.setState c (.subscribed id))
  | opened {id : SubscriptionId} {node : τ} {registry : Registry PersistingHandler} :
      m.shutDown = false → (∀ id, m.state c ≠ .subscribed id) →
      Node.subscribe c m.node = (.ok id, node) → m.registry.register id c ⟨c⟩ = .ok registry →
      Subscribed c m (.ok id)
        { { m.setState c .subscribing with node := node }.setState c (.subscribed id) with
          registry := registry }

theorem subscribed (c : Category) (m : Manager σ τ) :
    Subscribed c m (m.subscribe c).1 (m.subscribe c).2 := by
  simp only [subscribe]
  cases hd : m.shutDown with
  | true => exact .refused hd
  | false =>
    simp only [Bool.false_eq_true, if_false]
    split
    · rename_i id hst
      exact .kept hd hst
    · rename_i hst
      split
      · rename_i e node hn
        exact .failed hd hst hn
      · rename_i id node hn
        split
        · rename_i e hr
          exact .unrouted hd hst hn hr
        · rename_i registry hr
          exact .opened hd hst hn hr

/-- Nothing but what `subscribe` does is listed. -/
theorem Subscribed.eq {c : Category} {m m' : Manager σ τ} {result : Except LifecycleError SubscriptionId}
    (h : Subscribed c m result m') : m.subscribe c = (result, m') := by
  have hnode : ∀ s, (m.setState c s).node = m.node := fun _ => rfl
  have hregistry : ∀ (s s' : State) (node : τ), ({ m.setState c s with node := node }.setState c s').registry = m.registry :=
    fun _ _ _ => rfl
  cases h with
  | refused hd => simp [subscribe, hd]
  | kept hd hs => simp [subscribe, hd, hs]
  | failed _ hc | unrouted _ hc | opened _ hc => cases hs : m.state c <;> simp_all [subscribe]

theorem carried_subscribe [BatchStore σ] {m : Manager σ τ} (hs : m.intake.queue.Sound) (c : Category) :
    Carried [] m (m.subscribe c).2 := by
  generalize hr : (m.subscribe c).1 = result, hm : (m.subscribe c).2 = m'
  have h := subscribed c m
  rw [hr, hm] at h
  cases h with
  | refused | kept => exact .refl hs
  | failed | unrouted => exact ⟨.refl hs, id, rfl, rfl, rfl⟩
  | opened _ _ _ h =>
    obtain ⟨_, _, rfl⟩ := Registry.register_eq_ok h
    refine ⟨.refl hs, fun hm entry he => ?_, rfl, rfl, rfl⟩
    rcases Sorted.mem_insert he with rfl | he
    · rfl
    · exact hm entry he

theorem carried_subscribeWithRetry [BatchStore σ] {m : Manager σ τ} (hs : m.intake.queue.Sound)
    (c : Category) (retries : Nat) : Carried [] m (m.subscribeWithRetry c retries).2 := by
  induction retries generalizing m with
  | zero => exact carried_subscribe hs c
  | succ retries ih =>
    have hk := carried_subscribe hs c
    simp only [subscribeWithRetry]
    split
    · rename_i e m' h
      rw [h] at hk
      split
      · exact hk.trans (ih hk.took.sound)
      · exact hk
    · rename_i id m' h
      rw [h] at hk
      exact hk

theorem carried_subscribeAll [BatchStore σ] {m : Manager σ τ} (hs : m.intake.queue.Sound) (retries : Nat)
    (categories : List Category) : Carried [] m (m.subscribeAll retries categories).2 := by
  induction categories generalizing m with
  | nil => exact .refl hs
  | cons c rest ih =>
    have hk := carried_subscribeWithRetry hs c retries
    simp only [subscribeAll]
    split
    · rename_i e m' h
      rw [h] at hk
      exact hk
    · rename_i id m' h
      rw [h] at hk
      exact hk.trans (ih hk.took.sound)

end Subscribe

/-! ### Closing -/

section Unsubscribe
variable [BatchStore σ] [Node τ]

/-- How a request to unsubscribe ends. -/
inductive Unsubscribed (c : Category) (m : Manager σ τ) :
    Except LifecycleError Unit → Manager σ τ → Prop
  | idle : (∀ id, m.state c ≠ .subscribed id) → Unsubscribed c m (.ok ()) m
  | failed {id : SubscriptionId} {e : TransportError} {node : τ} :
      m.state c = .subscribed id → Node.unsubscribe id m.node = (.error e, node) →
      Unsubscribed c m (.error (.transport c e))
        ({ m.setState c (.unsubscribing id) with node := node }.setState c (.subscribed id))
  | rejected {id : SubscriptionId} {node : τ} :
      m.state c = .subscribed id → Node.unsubscribe id m.node = (.ok false, node) →
      Unsubscribed c m (.error (.unsubscribeRejected c id))
        ({ m.setState c (.unsubscribing id) with node := node }.setState c (.subscribed id))
  | unrouted {id : SubscriptionId} {node : τ} :
      m.state c = .subscribed id → Node.unsubscribe id m.node = (.ok true, node) →
      m.registry.removeFor id c = (false, m.registry) →
      Unsubscribed c m (.ok ()) ({ m.setState c (.unsubscribing id) with node := node }.clearState c)
  | released {id : SubscriptionId} {node : τ} {result : Except QueueError Nat} {intake : Intake σ} :
      m.state c = .subscribed id → Node.unsubscribe id m.node = (.ok true, node) →
      m.registry.removeFor id c = (true, { m.registry with routes := Sorted.erase id m.registry.routes }) →
      m.intake.release id = (result, intake) →
      Unsubscribed c m
        (match result with
          | .ok _ => .ok ()
          | .error e => .error (.flush c id e))
        { { m.setState c (.unsubscribing id) with node := node }.clearState c with
          registry := { m.registry with routes := Sorted.erase id m.registry.routes }
          intake := intake }

theorem unsubscribed (c : Category) (m : Manager σ τ) :
    Unsubscribed c m (m.unsubscribe c).1 (m.unsubscribe c).2 := by
  simp only [unsubscribe]
  split
  · rename_i id hst
    split
    · rename_i node hn
      rcases m.registry.removeFor_cases id c with hr | hr
      · simp only [setState, clearState, hr]
        exact .unrouted hst hn hr
      · simp only [setState, clearState, hr]
        rcases hi : m.intake.release id with ⟨_ | _, intake⟩
        · exact .released hst hn hr hi
        · exact .released hst hn hr hi
    · rename_i node hn
      exact .rejected hst hn
    · rename_i e node hn
      exact .failed hst hn
  · rename_i hst
    exact .idle hst

/-- Nothing but what `unsubscribe` does is listed. -/
theorem Unsubscribed.eq {c : Category} {m m' : Manager σ τ} {result : Except LifecycleError Unit}
    (h : Unsubscribed c m result m') : m.unsubscribe c = (result, m') := by
  have hnode : ∀ s, (m.setState c s).node = m.node := fun _ => rfl
  have hregistry : ∀ (s : State) (node : τ), ({ m.setState c s with node := node }.clearState c).registry = m.registry :=
    fun _ _ => rfl
  have hintake : ∀ (s : State) (node : τ), ({ m.setState c s with node := node }.clearState c).intake = m.intake :=
    fun _ _ => rfl
  cases h with
  | idle hc => cases hs : m.state c <;> simp_all [unsubscribe]
  | failed hs hn | rejected hs hn => simp [unsubscribe, hs, hnode, hn]
  | unrouted hs hn hr =>
    simp [unsubscribe, hs, hnode, hn, hregistry, hr]
    rfl
  | @released _ _ result _ hs hn hr hi =>
    simp only [unsubscribe, hs, hnode, hn, hregistry, hr, hintake, hi]
    cases result <;> rfl

theorem carried_unsubscribe {m : Manager σ τ} (hs : m.intake.queue.Sound) (c : Category) :
    Carried [] m (m.unsubscribe c).2 := by
  generalize hr : (m.unsubscribe c).1 = result, hm : (m.unsubscribe c).2 = m'
  have h := unsubscribed c m
  rw [hr, hm] at h
  cases h with
  | idle => exact .refl hs
  | failed | rejected | unrouted => exact ⟨.refl hs, id, rfl, rfl, rfl⟩
  | @released id _ _ _ _ _ _ h =>
    cases (congrArg Prod.snd h : (m.intake.release id).2 = _)
    exact ⟨Intake.took_release hs id,
      fun hm entry he => hm entry ((Sorted.erase_sublist _ _).subset he),
      Intake.closed_release m.intake id, rfl, rfl⟩

theorem carried_unsubscribeAll {m : Manager σ τ} (hs : m.intake.queue.Sound) (categories : List Category) :
    Carried [] m (m.unsubscribeAll categories).2 := by
  induction categories generalizing m with
  | nil => exact .refl hs
  | cons c rest ih =>
    have hk := carried_unsubscribe hs c
    simp only [unsubscribeAll]
    split <;> rename_i h <;> rw [h] at hk <;> exact hk.trans (ih hk.took.sound)

theorem shutdown_snd (m : Manager σ τ) :
    m.shutdown.2 =
      if m.shutDown then m
      else
        let closed := ({ m with shutDown := true }.unsubscribeAll (m.states.map Prod.fst)).2
        { closed with registry := closed.registry.close, intake := closed.intake.drain.2 } := by
  simp only [shutdown]
  split
  · rfl
  · split <;> simp_all

/-- A shutdown takes no record and leaves everything closed. -/
theorem coherent_shutdown {m : Manager σ τ} (h : m.Coherent) :
    m.intake.Took [] m.shutdown.2.intake ∧ m.shutdown.2.Coherent ∧ m.shutdown.2.shutDown = true := by
  rw [shutdown_snd]
  split
  · rename_i hd
    exact ⟨.refl h.sound, h, hd⟩
  · -- Only the flag that refuses new subscriptions is ahead of the queue until the drain.
    have hk := carried_unsubscribeAll (m := { m with shutDown := true }) h.sound (m.states.map Prod.fst)
    have ht := Intake.took_drain hk.took.sound
    have hc := Intake.closed_drain ({ m with shutDown := true }.unsubscribeAll (m.states.map Prod.fst)).2.intake
    exact ⟨hk.took.trans ht, ⟨ht.sound, hk.matched h.matched, hc.symm, hk.shutDown.trans hc.symm⟩,
      hk.shutDown⟩

end Unsubscribe

/-! ### Pushes -/

section Push
variable [BatchStore σ]

theorem carried_push {m : Manager σ τ} (h : m.Coherent) (id : SubscriptionId) (raw : String) :
    Carried (Intake.due m.registry (invocations m.registry id raw)) m (m.push id raw).2 where
  took := Intake.took_dispatch h.sound h.matched h.registry_closed id raw
  matched hm := hm
  queue_closed := Intake.closed_dispatch h.matched id raw m.intake
  registry_closed := rfl
  shutDown := rfl

theorem notify_eq (raw : String) (m : Manager σ τ) :
    m.notify raw =
      match Notification.decode raw with
      | .error e => (.error (.notification e), m)
      | .ok n => m.push n.subscription n.result := by
  simp only [notify, Subscription.notify, push]
  cases Notification.decode raw <;> rfl

end Push

end Manager

end EventIntake.Subscription
