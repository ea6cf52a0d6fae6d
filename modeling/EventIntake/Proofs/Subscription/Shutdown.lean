import EventIntake.Proofs.Store.Ledger
import EventIntake.Proofs.Subscription.Requests

/-! The shutdown of a manager. Every subscription is asked to be closed, whatever became of the others, then
routing stops and every buffer is stored. -/
namespace EventIntake.Subscription
open Event

/-- The category that an error is about. -/
def LifecycleError.category? : LifecycleError → Option Category
  | transport c _ | registration c _ _ | unsubscribeRejected c _ | flush c _ _ => some c
  | shutDown => none

/-- The error of a category that could not be unsubscribed. -/
def failure? : Category × Except LifecycleError Unit → Option LifecycleError
  | (_, .error e) => some e
  | (_, .ok ()) => none

theorem failure?_eq_none_iff (t : Category × Except LifecycleError Unit) : failure? t = none ↔ t.2 = .ok () := by
  obtain ⟨c, e | u⟩ := t <;> simp [failure?]

namespace Manager

variable {σ τ : Type}

/-! ### States -/

/-- Every category with a state is subscribed. -/
def AllSubscribed (m : Manager σ τ) : Prop := ∀ entry ∈ m.states, ∃ id, entry.2 = .subscribed id

theorem mem_states_reset {m : Manager σ τ} (h : Sorted.Ascending m.states) {c : Category} {s s' : State}
    {node : τ} {x : Category × State}
    (hx : x ∈ ({ m.setState c s with node := node }.setState c s').states) : x = (c, s') ∨ x ∈ m.states := by
  rcases (h.insert c s).mem_insert_iff.mp hx with hx | ⟨hx, hne⟩
  · exact .inl hx
  · exact .inr ((Sorted.mem_insert hx).resolve_left fun he => hne (congrArg Prod.fst he))

theorem mem_states_withdrawn {m : Manager σ τ} (h : Sorted.Ascending m.states) {c : Category} {s : State}
    {node : τ} {x : Category × State} (hx : x ∈ ({ m.setState c s with node := node }.clearState c).states) :
    x ∈ m.states := by
  obtain ⟨hx, hne⟩ := (h.insert c s).mem_erase_iff.mp hx
  exact (Sorted.mem_insert hx).resolve_left fun he => hne (congrArg Prod.fst he)

theorem AllSubscribed.move [BatchStore σ] [Node τ] {m : Manager σ τ} (h : m.AllSubscribed)
    (hs : Sorted.Ascending m.states) (move : Move) : (move.run m).AllSubscribed := by
  cases move with
  | subscribe c =>
    have ho := subscribed c m
    rw [Move.run]
    generalize (m.subscribe c).1 = result, (m.subscribe c).2 = m' at ho ⊢
    cases ho with
    | refused | kept => exact h
    | failed => exact fun x hx => h x (mem_states_withdrawn hs hx)
    | unrouted | opened =>
      intro x hx
      rcases mem_states_reset hs hx with rfl | hx
      · exact ⟨_, rfl⟩
      · exact h x hx
  | unsubscribe c =>
    have ho := unsubscribed c m
    rw [Move.run]
    generalize (m.unsubscribe c).1 = result, (m.unsubscribe c).2 = m' at ho ⊢
    cases ho with
    | idle => exact h
    | failed | rejected =>
      intro x hx
      rcases mem_states_reset hs hx with rfl | hx
      · exact ⟨_, rfl⟩
      · exact h x hx
    | unrouted | released => exact fun x hx => h x (mem_states_withdrawn hs hx)
  | push | refuse | close => exact h

theorem AllSubscribed.after [BatchStore σ] [Node τ] {m : Manager σ τ} (h : m.AllSubscribed) (ha : m.Agrees)
    (moves : List Move) : (m.after moves).AllSubscribed := by
  induction moves generalizing m with
  | nil => exact h
  | cons move rest ih => exact ih (h.move ha.states move) (ha.move move)

theorem AllSubscribed.map_active {m : Manager σ τ} (h : m.AllSubscribed) :
    m.active.map Prod.fst = m.states.map Prod.fst := by
  simp only [active, AllSubscribed] at h ⊢
  generalize m.states = states at h ⊢
  induction states with
  | nil => rfl
  | cons entry rest ih =>
    obtain ⟨⟨id, hid⟩, hrest⟩ := List.forall_mem_cons.mp h
    obtain ⟨c, s⟩ := entry
    cases hid
    exact congrArg (c :: ·) (ih hrest)

theorem AllSubscribed.ascending_active {m : Manager σ τ} (h : m.AllSubscribed)
    (hs : Sorted.Ascending m.states) : (m.active.map Prod.fst).Pairwise (· < ·) := by
  rw [h.map_active]
  exact List.pairwise_map.mpr hs

/-! ### The first shutdown -/

section Shutdown
variable [BatchStore σ] [Node τ]

/-- The results of closing the subscriptions of categories one after the other. -/
def tried : List Category → Manager σ τ → List (Category × Except LifecycleError Unit)
  | [], _ => []
  | c :: rest, m => (c, (m.unsubscribe c).1) :: tried rest (m.unsubscribe c).2

theorem map_fst_tried (categories : List Category) (m : Manager σ τ) :
    (tried categories m).map Prod.fst = categories := by
  induction categories generalizing m with
  | nil => rfl
  | cons c rest ih => exact congrArg (c :: ·) (ih _)

/-- An error names the category that was to be closed. -/
theorem category?_unsubscribe {c : Category} {m : Manager σ τ} {e : LifecycleError}
    (h : (m.unsubscribe c).1 = .error e) : e.category? = some c := by
  have ho := unsubscribed c m
  generalize (m.unsubscribe c).1 = result, (m.unsubscribe c).2 = m' at h ho
  cases ho with
  | idle | unrouted => cases h
  | failed | rejected =>
    cases h
    rfl
  | @released _ _ result _ _ _ _ _ =>
    cases result with
    | ok _ => cases h
    | error _ =>
      cases h
      rfl

theorem unsubscribeAll_fst (categories : List Category) (m : Manager σ τ) :
    (m.unsubscribeAll categories).1 = (tried categories m).filterMap failure? := by
  induction categories generalizing m with
  | nil => rfl
  | cons c rest ih =>
    simp only [unsubscribeAll, tried]
    rcases m.unsubscribe c with ⟨e | _, m'⟩
    · exact congrArg (e :: ·) (ih m')
    · exact ih m'

/-- The errors are those of the categories that failed, in order. -/
theorem map_failures (categories : List Category) (m : Manager σ τ) :
    ((tried categories m).filterMap failure?).map (fun e => (e.category?, Except.error e)) =
      ((tried categories m).filter fun t => !t.2.isOk).map fun t => (some t.1, t.2) := by
  induction categories generalizing m with
  | nil => rfl
  | cons c rest ih =>
    have hc := fun e => category?_unsubscribe (c := c) (m := m) (e := e)
    simp only [tried]
    cases hr : (m.unsubscribe c).1 with
    | ok _ => exact ih _
    | error e =>
      simp only [List.filterMap_cons, failure?, List.filter_cons, Except.isOk, Except.toBool, Bool.not_false,
        if_true, List.map_cons, hc e hr]
      exact congrArg _ (ih _)

/-- A manager that refuses new subscriptions and was asked to close every open one. -/
def closing (m : Manager σ τ) : Manager σ τ :=
  m.after (.refuse :: m.active.map fun a => .unsubscribe a.1)

/-- What becomes of each open subscription in a shutdown. -/
def closings (m : Manager σ τ) : List (Category × Except LifecycleError Unit) :=
  tried (m.active.map Prod.fst) { m with shutDown := true }

/-- The last batches of a shutdown with the answers of the store. -/
def drained (m : Manager σ τ) : List (Batch × Except StorageError Unit) :=
  BatchStore.answers m.closing.intake.queue.close.1 m.closing.intake.store

/-- The error that a shutdown returns if anything failed. -/
def shutdownError? (m : Manager σ τ) : Option ShutdownError :=
  let failures := m.closings.filterMap failure?
  let lost := m.drained.findSome? Queue.lost?
  if failures = [] ∧ lost = none then none else some ⟨failures, lost⟩

theorem drain_closing (m : Manager σ τ) :
    m.closing.intake.drain.1 = match m.drained.findSome? Queue.lost? with
      | some e => .error e
      | none => .ok () :=
  Queue.flushAll_fst m.closing.intake.queue.close.1 m.closing.intake.store

theorem shutdown_eq {m : Manager σ τ} (h : m.AllSubscribed) (hd : m.shutDown = false) :
    m.shutdown =
      (match m.shutdownError? with
        | none => .ok ()
        | some e => .error e, Move.close.run m.closing) := by
  have hclosed : { m with shutDown := true }.unsubscribeAll (m.states.map Prod.fst) =
      (m.closings.filterMap failure?, m.closing) := by
    rw [← h.map_active]
    refine Prod.ext (unsubscribeAll_fst _ _) ((unsubscribeAll_snd _ _).trans ?_)
    rw [List.map_map]
    rfl
  have hdrained : m.closing.intake.drain = (_, m.closing.intake.drain.2) :=
    Prod.ext m.drain_closing rfl
  have hshut : m.closing.shutDown = true :=
    (congrArg (shutDown ∘ Prod.snd) hclosed).symm.trans (shutDown_unsubscribeAll _ { m with shutDown := true })
  have hclose : Move.close.run m.closing =
      { m.closing with registry := m.closing.registry.close, intake := m.closing.intake.drain.2 } := by
    rw [Move.run, ← hshut]
  rw [hclose]
  simp only [shutdown, hd, Bool.false_eq_true, if_false, shutdownError?]
  rw [hclosed, hdrained]
  cases m.closings.filterMap failure? <;> cases m.drained.findSome? Queue.lost? <;> simp

theorem state_unsubscribe_of_ne {m : Manager σ τ} (h : m.Agrees) {c d : Category} (hd : d ≠ c) :
    (m.unsubscribe c).2.state d = m.state d := by
  have ho := unsubscribed c m
  generalize (m.unsubscribe c).1 = result, (m.unsubscribe c).2 = m' at ho ⊢
  cases ho with
  | idle => rfl
  | @failed id _ node _ _ | @rejected id node _ _ =>
    exact (state_reset m c (.unsubscribing id) (.subscribed id) node d).trans (if_neg hd)
  | @unrouted id node _ _ _ | @released id node _ _ _ _ _ _ =>
    exact (state_withdrawn h.states c (.unsubscribing id) node d).trans (if_neg hd)

/-- Of different categories with open subscriptions, each is asked to be closed once, in order. -/
theorem exists_answers {m : Manager σ τ} (h : m.Agrees) {subscriptions : List (Category × SubscriptionId)}
    (hnodup : (subscriptions.map Prod.fst).Nodup) (hopen : ∀ a ∈ subscriptions, m.state a.1 = .subscribed a.2) :
    ∃ answered : List ((Category × SubscriptionId) × Except TransportError Bool),
      answered.map Prod.fst = subscriptions ∧
        askedAll (subscriptions.map fun a => .unsubscribe a.1) m =
          answered.map fun a => (a.1.1, .unsubscribe a.1.2 a.2) := by
  induction subscriptions generalizing m with
  | nil => exact ⟨[], rfl, rfl⟩
  | cons a rest ih =>
    obtain ⟨ha, hrest⟩ := List.forall_mem_cons.mp hopen
    obtain ⟨hnot, hnodup⟩ := List.nodup_cons.mp hnodup
    obtain ⟨answered, rfl, hasked⟩ := ih (h.unsubscribe a.1) hnodup fun b hb => by
      have hne : b.1 ≠ a.1 := fun he => hnot (he ▸ List.mem_map_of_mem hb)
      rw [state_unsubscribe_of_ne h hne, hrest b hb]
    refine ⟨(a, (Node.unsubscribe a.2 m.node).1) :: answered, rfl, ?_⟩
    rw [List.map_cons, askedAll, Move.run, hasked, asked_unsubscribe ha rfl]
    rfl

theorem noted_closing {m : Manager σ (NotingNode τ)} (h : m.AllSubscribed) (ha : m.Agrees) :
    ∃ answered : List ((Category × SubscriptionId) × Except TransportError Bool),
      answered.map Prod.fst = m.active ∧
        m.closing.node.noted = m.node.noted ++ answered.map fun a => .unsubscribe a.1.2 a.2 := by
  have hnodup : (m.active.map Prod.fst).Nodup :=
    List.nodup_iff_pairwise_ne.mpr <| (h.ascending_active ha.states).imp fun {a b} hab he => by
      subst he
      exact Std.lt_irrefl hab
  have hrefuse : ({ m with shutDown := true } : Manager σ (NotingNode τ)).Agrees := ha.move .refuse
  obtain ⟨answered, hfst, hasked⟩ := exists_answers hrefuse hnodup fun a hm =>
    (mem_active ha.states a.1 a.2).mp hm
  refine ⟨answered, hfst, ?_⟩
  rw [closing, after_cons, noted_after, Move.run, hasked, List.map_map]
  rfl

theorem sound_closing {m : Manager σ τ} (hs : m.intake.queue.Sound) : m.closing.intake.queue.Sound := by
  have hk := carried_unsubscribeAll (m := { m with shutDown := true }) hs (m.active.map Prod.fst)
  rw [unsubscribeAll_snd, List.map_map] at hk
  exact hk.took.sound

/-- The last batches come in the order of their subscriptions. -/
theorem ascending_drained {m : Manager σ τ} (hs : m.intake.queue.Sound) :
    m.drained.Pairwise fun a b => a.1.subscription < b.1.subscription :=
  Queue.ascending_answers (sound_closing hs) m.closing.intake.store

theorem shutdownError?_eq_none_iff (m : Manager σ τ) :
    m.shutdownError? = none ↔ (∀ t ∈ m.closings, t.2 = .ok ()) ∧ ∀ a ∈ m.drained, a.2 = .ok () := by
  simp only [shutdownError?, ite_eq_left_iff, reduceCtorEq, imp_false, Classical.not_not, List.filterMap_eq_nil_iff,
    List.findSome?_eq_none_iff, failure?_eq_none_iff, Queue.lost?_eq_none_iff]

theorem eq_of_shutdownError? {m : Manager σ τ} {e : ShutdownError} (h : m.shutdownError? = some e) :
    e = ⟨m.closings.filterMap failure?, m.drained.findSome? Queue.lost?⟩ := by
  simp only [shutdownError?] at h
  split at h
  · cases h
  · exact (Option.some.inj h).symm

end Shutdown

/-- How the first shutdown of a manager goes. Every open subscription is asked to be closed once, in the
order of the categories and whatever the answers. Then routing stops and every buffer is stored, in
the order of the ids and whatever the answers. The failures are reported. -/
structure ShutsDown [BatchStore σ] [Node τ] (m : Manager (Ledger σ) (NotingNode τ))
    (result : Except ShutdownError Unit) (m' : Manager (Ledger σ) (NotingNode τ)) : Prop where
  ascending : (m.active.map Prod.fst).Pairwise (· < ·)
  tried : m.closings.map Prod.fst = m.active.map Prod.fst
  asked : ∃ answered : List ((Category × SubscriptionId) × Except TransportError Bool),
    answered.map Prod.fst = m.active ∧
      m'.node.noted = m.node.noted ++ answered.map fun a => .unsubscribe a.1.2 a.2
  closed : m' = Move.close.run m.closing
  batches : m.drained.map Prod.fst = m.closing.intake.queue.buffers.map fun b => ⟨b.1, b.2⟩
  ids : m.drained.Pairwise fun a b => a.1.subscription < b.1.subscription
  stored : m'.intake.store.entries =
    m.closing.intake.store.entries ++ m.drained.map fun a => ⟨a.1.records, a.2⟩
  ok_iff : result = .ok () ↔ (∀ t ∈ m.closings, t.2 = .ok ()) ∧ ∀ a ∈ m.drained, a.2 = .ok ()
  failures : ∀ e, result = .error e →
    e.unsubscribe.map (fun f => (f.category?, Except.error f)) =
      (m.closings.filter fun t => !t.2.isOk).map fun t => (some t.1, t.2)
  no_loss : ∀ e, result = .error e → (e.drain = none ↔ ∀ a ∈ m.drained, a.2 = .ok ())
  first_loss : ∀ e lost, result = .error e → e.drain = some lost →
    ∃ a ∈ m.drained, Queue.lost? a = some lost ∧
      ∀ b ∈ m.drained, b.2 ≠ .ok () → a.1.subscription ≤ b.1.subscription

theorem shutsDown [BatchStore σ] [Node τ] {m : Manager (Ledger σ) (NotingNode τ)} (h : m.AllSubscribed)
    (ha : m.Agrees) (hs : m.intake.queue.Sound) (hd : m.shutDown = false) :
    m.ShutsDown m.shutdown.1 m.shutdown.2 := by
  rw [shutdown_eq h hd]
  have herror : ∀ e, (match m.shutdownError? with | none => Except.ok () | some e => .error e) = .error e →
      m.shutdownError? = some e := by
    intro e he
    split at he <;> simp_all
  exact {
    ascending := h.ascending_active ha.states
    tried := map_fst_tried _ _
    asked := noted_closing h ha
    closed := rfl
    batches := Queue.map_fst_answers _ _
    ids := ascending_drained hs
    stored := by
      have hstore : m.closing.intake.drain.2.store = _ := Queue.flushAll_store _ _
      rw [Move.run, hstore, Ledger.entries_persistAll]
      rfl
    ok_iff := by
      rw [← shutdownError?_eq_none_iff]
      cases m.shutdownError? <;> simp
    failures := fun e he => by
      cases eq_of_shutdownError? (herror e he)
      exact map_failures _ _
    no_loss := fun e he => by
      cases eq_of_shutdownError? (herror e he)
      simp only [List.findSome?_eq_none_iff, Queue.lost?_eq_none_iff]
    first_loss := fun e lost he hl => by
      cases eq_of_shutdownError? (herror e he)
      exact Queue.exists_smallest_lost (ascending_drained hs) hl }

end Manager

end EventIntake.Subscription
