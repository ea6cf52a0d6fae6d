import EventIntake.Proofs.Subscription.Agreement

/-! Whether the pushes of an id reach the category that was told the id. -/
namespace EventIntake.Subscription
open Event

theorem Registry.lookup_register {η : Type} {id : SubscriptionId} {c : Category} {handler : η}
    {r after : Registry η} (h : r.register id c handler = .ok after) (j : SubscriptionId) :
    after.lookup j = if j = id then some ⟨c, handler⟩ else r.lookup j := by
  obtain ⟨hcl, _, rfl⟩ := Registry.register_eq_ok h
  simp [Registry.lookup, hcl, Sorted.find?_insert]

namespace Manager

variable {σ τ : Type}

/-- The pushes of the id go to the handler of the category. -/
def Routes (c : Category) (id : SubscriptionId) (m : Manager σ τ) : Prop :=
  (m.registry.lookup id).map Route.category = some c

instance (c : Category) (id : SubscriptionId) (m : Manager σ τ) : Decidable (m.Routes c id) :=
  inferInstanceAs (Decidable ((m.registry.lookup id).map Route.category = some c))

/-- If the category holds the id, its pushes go there. -/
def Backed (c : Category) (id : SubscriptionId) (m : Manager σ τ) : Prop :=
  m.state c = .subscribed id → m.Routes c id

/-- The category holds the id, and the manager is not shut down. -/
structure Holds (c : Category) (id : SubscriptionId) (m : Manager σ τ) : Prop where
  state : m.state c = .subscribed id
  shutDown : m.shutDown = false

/-- Every category keeps the id that it holds, and pushes of the id reach it as before. -/
structure Kept (m m' : Manager σ τ) : Prop where
  state : ∀ {d id}, m.state d = .subscribed id → m'.state d = .subscribed id
  backed : ∀ d id, m'.Backed d id ↔ m.Backed d id
  shutDown : m'.shutDown = m.shutDown

theorem Kept.refl (m : Manager σ τ) : Kept m m := ⟨id, fun _ _ => .rfl, rfl⟩

theorem Kept.trans {m₀ m₁ m₂ : Manager σ τ} (h : Kept m₀ m₁) (h' : Kept m₁ m₂) : Kept m₀ m₂ :=
  ⟨fun hs => h'.state (h.state hs), fun d id => (h'.backed d id).trans (h.backed d id),
    h'.shutDown.trans h.shutDown⟩

theorem Holds.keep {c : Category} {id : SubscriptionId} {m m' : Manager σ τ} (h : m.Holds c id)
    (hk : Kept m m') : m'.Holds c id :=
  ⟨hk.state h.state, hk.shutDown.trans h.shutDown⟩

theorem Holds.routes_iff {c : Category} {id : SubscriptionId} {m m' : Manager σ τ} (h : m'.Holds c id)
    (hk : Kept m m') : m'.Routes c id ↔ m.Backed c id := by
  rw [← hk.backed c id]
  exact ⟨fun hr _ => hr, fun hb => hb h.state⟩

theorem Holds.routes {c : Category} {id : SubscriptionId} {m : Manager σ τ} (h : m.Holds c id)
    (hc : m.Complete) : m.Routes c id := by
  obtain ⟨⟨_, route⟩, he, rfl, rfl⟩ := hc.covered c id h.state
  have ho : m.registry.closed = false := by
    cases hcl : m.registry.closed with
    | false => rfl
    | true => exact absurd (hc.closed hcl) (by simp [h.shutDown])
  simp [Routes, Registry.lookup, ho, hc.agrees.routes.find?_eq_some_iff.mpr he]

/-! ### Opening -/

variable [Node τ]

/-- A reported id is held, and nothing changes for the other subscriptions. -/
theorem holds_subscribe {c : Category} {id : SubscriptionId} {m : Manager σ τ}
    (h : (m.subscribe c).1 = .ok id) : (m.subscribe c).2.Holds c id ∧ Kept m (m.subscribe c).2 := by
  have ho := subscribed c m
  rw [h] at ho
  generalize (m.subscribe c).2 = m' at ho ⊢
  cases ho with
  | kept hd hs => exact ⟨⟨hs, hd⟩, .refl m⟩
  | @opened _ node registry hd hc _ hreg =>
    have hstate := state_reset m c .subscribing (.subscribed id) node
    refine ⟨⟨(hstate c).trans (if_pos rfl), hd⟩, fun {d id'} hs => ?_, fun d id' => ?_, rfl⟩
    · have hne : d ≠ c := fun he => hc id' (he ▸ hs)
      exact ((hstate d).trans (if_neg hne)).trans hs
    · by_cases hne : d = c
      · subst hne
        refine iff_of_true (fun hs => ?_) (fun hs => absurd hs (hc id'))
        cases (if_pos rfl).symm.trans ((hstate d).symm.trans hs)
        simp [Routes, Registry.lookup_register hreg]
      · have hroutes : (registry.lookup id').map Route.category = some d ↔ m.Routes d id' := by
          obtain ⟨_, hnone, _⟩ := Registry.register_eq_ok hreg
          rw [Registry.lookup_register hreg]
          split
          · rename_i hid
            simp [Routes, Registry.lookup, hid, hnone, Ne.symm hne]
          · rfl
        exact imp_congr (by rw [← (hstate d).trans (if_neg hne)]; rfl) hroutes

/-- A failure that may pass changes nothing. -/
theorem kept_of_retryable {c : Category} {e : LifecycleError} {m : Manager σ τ} (hm : m.Agrees)
    (h : (m.subscribe c).1 = .error e) (hr : e.retryable = true) : Kept m (m.subscribe c).2 := by
  have ho := subscribed c m
  rw [h] at ho
  generalize (m.subscribe c).2 = m' at ho ⊢
  cases ho with
  | refused | unrouted => cases hr
  | @failed _ node _ hc _ =>
    have hstate := state_withdrawn hm.states c .subscribing node
    have hother : ∀ {d id}, m.state d = .subscribed id → d ≠ c := fun hs hd => hc _ (hd ▸ hs)
    refine ⟨fun {d id} hs => ((hstate d).trans (if_neg (hother hs))).trans hs, fun d id => ?_, rfl⟩
    refine imp_congr_left ⟨fun hs => ?_, fun hs => ((hstate d).trans (if_neg (hother hs))).trans hs⟩
    have hs := (hstate d).symm.trans hs
    split at hs
    · cases hs
    · exact hs

theorem holds_subscribeWithRetry {c : Category} {id : SubscriptionId} {retries : Nat} {m : Manager σ τ}
    (hm : m.Agrees) (h : (m.subscribeWithRetry c retries).1 = .ok id) :
    (m.subscribeWithRetry c retries).2.Holds c id ∧ Kept m (m.subscribeWithRetry c retries).2 := by
  induction retries generalizing m with
  | zero => exact holds_subscribe h
  | succ retries ih =>
    have hnext := hm.subscribe c
    have hok : (m.subscribe c).1 = .ok id → _ := holds_subscribe
    have hfail := fun e => kept_of_retryable (c := c) (e := e) hm
    simp only [subscribeWithRetry] at h ⊢
    generalize m.subscribe c = answer at hnext hok hfail h ⊢
    obtain ⟨e | id', m'⟩ := answer
    · by_cases hr : e.retryable = true
      · simp only [hr, if_true] at h ⊢
        obtain ⟨hholds, hkept⟩ := ih hnext h
        exact ⟨hholds, (hfail e rfl hr).trans hkept⟩
      · simp only [hr, Bool.false_eq_true, if_false] at h
        cases h
    · cases h
      exact hok rfl

/-- Every reported id is held, and nothing changes for the subscriptions that were open before. -/
theorem holds_subscribeAll [BatchStore σ] {categories : List Category} {retries : Nat}
    {opened : List (Category × SubscriptionId)} {m : Manager σ τ} (hm : m.Agrees)
    (h : (m.subscribeAll retries categories).1 = .ok opened) :
    (∀ s ∈ opened, (m.subscribeAll retries categories).2.Holds s.1 s.2) ∧
      Kept m (m.subscribeAll retries categories).2 := by
  induction categories generalizing m opened with
  | nil =>
    cases h
    exact ⟨by simp, .refl m⟩
  | cons c rest ih =>
    have hnext := subscribeWithRetry_snd c retries m ▸ hm.after _
    have hfirst : ∀ id, (m.subscribeWithRetry c retries).1 = .ok id → _ := fun id =>
      holds_subscribeWithRetry hm
    simp only [subscribeAll] at h ⊢
    generalize m.subscribeWithRetry c retries = answer at hnext hfirst h ⊢
    obtain ⟨e | id, m'⟩ := answer
    · cases h
    · obtain ⟨hholds, hkept⟩ := hfirst id rfl
      rcases hr : m'.subscribeAll retries rest with ⟨e | later, m''⟩
      · simp [hr, Except.map] at h
      · obtain ⟨hlater, hkept'⟩ := ih hnext (congrArg Prod.fst hr)
        simp only [hr, Except.map] at h hlater hkept' ⊢
        cases h
        exact ⟨List.forall_mem_cons.mpr ⟨hholds.keep hkept', hlater⟩, hkept.trans hkept'⟩

end Manager

end EventIntake.Subscription
