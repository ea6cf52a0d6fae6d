import EventIntake.Proofs.Sink.Failure
import EventIntake.Proofs.Subscription.Retry

/-! Retries at a node that loses some requests, and the start with a list of categories. -/
namespace EventIntake
open Event Subscription

namespace Subscription.Manager
variable {σ : Type} {m : Manager σ (NotingNode ScriptedNode)} {c : Category}

/-! ### One category -/

/-- What a request with retries comes to. It asks nothing after the shutdown or for a subscribed category, and once if
the node refuses. If the next requests are to lose their connection, it asks once more than the lesser of their number
and the retries. With more of them than retries the last failure is told, it may pass, and nothing changes but the node.
Else one id is taken, and it is told unless it is in use, which is not tried again. -/
def Attempted (c : Category) (retries : Nat) (m : Manager σ (NotingNode ScriptedNode))
    (outcome : Except LifecycleError SubscriptionId × Manager σ (NotingNode ScriptedNode)) : Prop :=
  let (result, m') := outcome
  let n := m.node.node
  let lost := TransportError.connection "connection reset"
  let refused := TransportError.rejected ("subscription to " ++ c.name ++ " refused")
  if m.shutDown then result = .error .shutDown ∧ m' = m
  else match m.state c with
    | .subscribed id => result = .ok id ∧ m' = m
    | _ =>
      if n.rejecting then
        result = .error (.transport c refused) ∧
          m' = { m with node := ⟨n, m.node.noted ++ [.subscribe c (.error refused)]⟩ }
      else
        m'.node.noted.length = m.node.noted.length + (min n.transientFailures retries + 1) ∧
          if retries < n.transientFailures then
            result = .error (.transport c lost) ∧ (LifecycleError.transport c lost).retryable = true ∧
              m' = { m with node := ⟨{ n with transientFailures := n.transientFailures - retries - 1 },
                m.node.noted ++ .replicate (retries + 1) (.subscribe c (.error lost))⟩ }
          else
            m'.node = ⟨{ n with
                transientFailures := 0, subscribed := n.subscribed ++ [c], nextId := n.nextId + 1 },
              m.node.noted ++ .replicate n.transientFailures (.subscribe c (.error lost)) ++
                [.subscribe c (.ok n.nextId)]⟩ ∧
            (∀ d, m'.state d = if d = c then .subscribed n.nextId else m.state d) ∧
            m'.intake = m.intake ∧ m'.shutDown = m.shutDown ∧
            match m.registry.lookup n.nextId with
            | some route =>
              result = .error (.registration c n.nextId (.alreadyRegistered n.nextId route.category)) ∧
                m'.registry = m.registry
            | none => result = .ok n.nextId ∧ m.registry.register n.nextId c ⟨c⟩ = .ok m'.registry

theorem Idle.attempted (h : m.Idle c) (ho : m.registry.closed = false) (hs : m.state c = .unsubscribed) (retries : Nat) :
    Attempted c retries m (m.subscribeWithRetry c retries) := by
  have hworking : ¬m.shutDown = true := Bool.not_eq_true _ ▸ h.shutDown
  simp only [Attempted, if_neg hworking, hs]
  split
  · rename_i hr
    rw [h.subscribeWithRetry_of_rejecting hr]
    exact ⟨rfl, rfl⟩
  · rename_i hr
    replace hr : m.node.node.rejecting = false := Bool.eq_false_iff.mpr hr
    by_cases hlt : retries < m.node.node.transientFailures
    · have hmin : min m.node.node.transientFailures retries = retries := Nat.min_eq_right hlt.le
      rw [h.subscribeWithRetry_of_lt hr hlt, if_pos hlt, hmin]
      exact ⟨by simp [NotingNode.lose], rfl, rfl, rfl⟩
    · have hle : m.node.node.transientFailures ≤ retries := Nat.le_of_not_lt hlt
      obtain ⟨hnode, hstate, hintake, hshut, hroute⟩ := h.granted_of_le ho hr hle
      have hnoted := congrArg NotingNode.noted hnode
      rw [if_neg hlt]
      refine ⟨?_, ?_, hstate, hintake, hshut, hroute⟩
      · simp [hnoted, NotingNode.lose, NotingNode.grant, Nat.min_eq_left hle]
      · simp [hnode, NotingNode.lose, NotingNode.grant, ScriptedNode.lost]

theorem Steady.attempted (h : m.Steady) (c : Category) (retries : Nat) :
    Attempted c retries m (m.subscribeWithRetry c retries) := by
  obtain ⟨hall, hagrees, hcoherent⟩ := h
  cases hd : m.shutDown with
  | true => simp [Attempted, hd, m.subscribeWithRetry_of_shutDown hd]
  | false =>
    have hopen : m.registry.closed = false := (hcoherent.registry_closed.trans hcoherent.shutDown.symm).trans hd
    rcases hagrees.settled c with hs | ⟨id, hs⟩
    · exact Idle.attempted ⟨hall, hagrees.states, hd, by simp [hs]⟩ hopen hs retries
    · simp [Attempted, hd, hs, subscribeWithRetry_of_subscribed hd hs]

/-! ### Lists of categories -/

/-- What a list of categories comes to. Each entry gets its pair, and equal entries get the same. Or the first entry that
fails stops it: the earlier ones are subscribed, and nothing was asked for the later ones. -/
def Opened (retries : Nat) (categories : List Category) (m : Manager σ (NotingNode ScriptedNode))
    (outcome : Except LifecycleError (List (Category × SubscriptionId)) × Manager σ (NotingNode ScriptedNode)) : Prop :=
  match outcome with
  | (.ok opened, m') =>
    opened.map Prod.fst = categories ∧ (∀ s ∈ opened, m'.state s.1 = .subscribed s.2) ∧
      ∀ s ∈ opened, ∀ s' ∈ opened, s.1 = s'.1 → s.2 = s'.2
  | (.error e, m') =>
    ∃ before c later opened m₁, categories = before ++ c :: later ∧
      m.subscribeAll retries before = (.ok opened, m₁) ∧ m₁.subscribeWithRetry c retries = (.error e, m') ∧
      opened.map Prod.fst = before ∧ (∀ s ∈ opened, m'.state s.1 = .subscribed s.2) ∧
      ∃ asked, m'.node.noted = m.node.noted ++ asked ∧
        ∀ request ∈ asked, ∃ d ∈ before ++ [c], ∃ answer, request = .subscribe d answer

variable [BatchStore σ]

theorem Agrees.opened (h : m.Agrees) (retries : Nat) (categories : List Category) :
    Opened retries categories m (m.subscribeAll retries categories) := by
  rcases hrun : m.subscribeAll retries categories with ⟨e | opened, m'⟩
  · obtain ⟨before, c, later, opened, m₁, hlist, hbefore, hc⟩ := subscribeAll_eq_error hrun
    refine ⟨before, c, later, opened, m₁, hlist, hbefore, hc, map_fst_subscribeAll (congrArg Prod.fst hbefore),
      fun s hs => ?_, ?_⟩
    · have hagrees : m₁.Agrees := by
        have hafter := h.after (m.subscribeAllMoves retries before)
        rwa [← subscribeAll_snd, hbefore] at hafter
      have hstate := ((holds_subscribeAll h (congrArg Prod.fst hbefore)).1 s hs).state
      rw [hbefore] at hstate
      have hkept := state_subscribeWithRetry_of_subscribed hagrees c retries hstate
      rwa [hc] at hkept
    · have hlast : m.subscribeAll retries (before ++ [c]) = (.error e, m') := by
        simp [subscribeAll_append, hbefore, subscribeAll, hc, Except.map]
      have hasked := m.noted_subscribeAll retries (before ++ [c])
      rwa [hlast] at hasked
  · have hheld := (holds_subscribeAll h (congrArg Prod.fst hrun)).1
    rw [hrun] at hheld
    refine ⟨map_fst_subscribeAll (congrArg Prod.fst hrun), fun s hs => (hheld s hs).state, fun s hs s' hs' he => ?_⟩
    exact State.subscribed.inj ((hheld s hs).state.symm.trans (he ▸ (hheld s' hs').state))

end Subscription.Manager

namespace EventSink
variable {σ : Type} [BatchStore σ]

/-- Whatever happened to a sink before, a request with retries makes the attempts that the failures to come and the
retries allow. A list of categories is opened in order up to the first that fails. -/
theorem attempts_of_retries (settings : Config.Ingest) (node : NotingNode ScriptedNode) (store : σ)
    (rules : Option Rules.Book) (happenings : List (Happening σ (NotingNode ScriptedNode))) (retries : Nat) :
    let m := (afterAll happenings (new settings node store rules)).manager
    (∀ c, m.Attempted c retries (m.subscribeWithRetry c retries)) ∧
    (∀ first rest, m.subscribeAll retries (first ++ rest) =
      match m.subscribeAll retries first with
      | (.error e, m₁) => (.error e, m₁)
      | (.ok opened, m₁) =>
        ((m₁.subscribeAll retries rest).1.map (opened ++ ·), (m₁.subscribeAll retries rest).2)) ∧
    ∀ categories, m.Opened retries categories (m.subscribeAll retries categories) := by
  intro m
  have hm : m.Steady := steady_afterAll (steady_new settings node store rules) happenings
  refine ⟨fun c => hm.attempted c retries, fun first rest => ?_, fun categories => hm.agrees.opened retries categories⟩
  rw [Manager.subscribeAll_append]
  rcases m.subscribeAll retries first with ⟨e | opened, m₁⟩ <;> rfl

end EventSink

end EventIntake
