import EventIntake.Proofs.Subscription.Moves

/-! Opening subscriptions leaves the intake alone. With another intake in its place all goes the same way. -/
namespace EventIntake.Subscription.Manager
open Event

variable {σ σ' τ : Type} [Node τ]

/-- The manager with another intake. -/
def withIntake (w : Intake σ') (m : Manager σ τ) : Manager σ' τ :=
  ⟨m.node, w, m.registry, m.states, m.shutDown⟩

theorem intake_subscribe (c : Category) (m : Manager σ τ) : (m.subscribe c).2.intake = m.intake := by
  have h := subscribed c m
  generalize (m.subscribe c).1 = result, (m.subscribe c).2 = m' at h
  cases h <;> rfl

theorem Subscribed.withIntake {c : Category} {m m' : Manager σ τ}
    {result : Except LifecycleError SubscriptionId} (h : Subscribed c m result m') (w : Intake σ') :
    Subscribed c (m.withIntake w) result (m'.withIntake w) := by
  cases h with
  | refused hd => exact .refused hd
  | kept hd hs => exact .kept hd hs
  | failed hd hc hn => exact .failed hd hc hn
  | unrouted hd hc hn hr => exact .unrouted hd hc hn hr
  | opened hd hc hn hr => exact .opened hd hc hn hr

theorem subscribe_withIntake (c : Category) (m : Manager σ τ) (w : Intake σ') :
    (m.withIntake w).subscribe c = ((m.subscribe c).1, (m.subscribe c).2.withIntake w) :=
  ((subscribed c m).withIntake w).eq

theorem subscribeWithRetry_withIntake (c : Category) (retries : Nat) (m : Manager σ τ) (w : Intake σ') :
    (m.withIntake w).subscribeWithRetry c retries =
        ((m.subscribeWithRetry c retries).1, (m.subscribeWithRetry c retries).2.withIntake w) ∧
      (m.withIntake w).retryMoves c retries = m.retryMoves c retries ∧
      (m.subscribeWithRetry c retries).2.intake = m.intake := by
  induction retries generalizing m with
  | zero => exact ⟨subscribe_withIntake c m w, rfl, intake_subscribe c m⟩
  | succ retries ih =>
    have hfirst := intake_subscribe c m
    simp only [subscribeWithRetry, retryMoves, subscribe_withIntake]
    generalize m.subscribe c = answer at hfirst ⊢
    obtain ⟨e | id, m'⟩ := answer
    · obtain ⟨hrun, hmoves, hintake⟩ := ih m'
      dsimp only
      split
      · exact ⟨hrun, congrArg _ hmoves, hintake.trans hfirst⟩
      · exact ⟨rfl, rfl, hfirst⟩
    · exact ⟨rfl, rfl, hfirst⟩

theorem subscribeAll_withIntake [BatchStore σ] [BatchStore σ'] (retries : Nat) (categories : List Category)
    (m : Manager σ τ) (w : Intake σ') :
    (m.withIntake w).subscribeAll retries categories =
        ((m.subscribeAll retries categories).1, (m.subscribeAll retries categories).2.withIntake w) ∧
      (m.withIntake w).subscribeAllMoves retries categories = m.subscribeAllMoves retries categories ∧
      (m.subscribeAll retries categories).2.intake = m.intake := by
  induction categories generalizing m with
  | nil => exact ⟨rfl, rfl, rfl⟩
  | cons c rest ih =>
    obtain ⟨hfirst, hmoves, hintake⟩ := subscribeWithRetry_withIntake c retries m w
    simp only [subscribeAll, subscribeAllMoves, hfirst, hmoves]
    generalize m.subscribeWithRetry c retries = answer at hintake ⊢
    obtain ⟨e | id, m'⟩ := answer
    · exact ⟨rfl, rfl, hintake⟩
    · obtain ⟨hrest, hmoves', hintake'⟩ := ih m'
      exact ⟨by simp only [hrest], by simp only [hmoves'], hintake'.trans hintake⟩

end EventIntake.Subscription.Manager
