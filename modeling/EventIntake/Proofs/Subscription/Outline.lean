import EventIntake.Proofs.Store.Ledger
import EventIntake.Proofs.Subscription.Opening
import EventIntake.Proofs.Subscription.Tables

/-! What a manager does apart from storing. As long as every batch is stored, its answers depend on neither the
buffers nor the store, and so not on the size of batches. -/
namespace EventIntake
open Event Subscription

/-- A store that takes every batch and keeps nothing. -/
structure VoidStore where
  deriving DecidableEq

instance : BatchStore VoidStore := ⟨fun _ s => (.ok (), s)⟩

/-- Whether a queue is closed, as a queue that never buffers. -/
def Queue.outline (q : Queue) : Queue := ⟨1, Nat.one_pos, [], q.closed⟩

namespace Intake

/-- An intake without its records. -/
def outline {σ : Type} (w : Intake σ) : Intake VoidStore := ⟨w.queue.outline, {}, w.rules⟩

variable {σ : Type} [BatchStore σ]

theorem outline_enqueue_snd (id : SubscriptionId) (r : Record) (w : Intake σ) :
    (w.enqueue id r).2.outline = w.outline := by
  have hq : (w.enqueue id r).2.queue = (w.queue.add id r).2 := Queue.Call.run_queue (.enqueue id r) _ _
  simp only [outline, Queue.outline, hq, Queue.closed_add]
  rfl

omit [BatchStore σ] in
theorem enqueue_outline (id : SubscriptionId) (r : Record) (w : Intake σ) :
    w.outline.enqueue id r = (if w.queue.closed then .error .closed else .ok (.flushed 1), w.outline) := by
  obtain ⟨⟨_, _, _, closed⟩, _, _⟩ := w
  cases closed <;> rfl

theorem outline_release_snd (id : SubscriptionId) (w : Intake σ) : (w.release id).2.outline = w.outline := by
  have hq : (w.release id).2.queue = (w.queue.remove id).2 := Queue.Call.run_queue (.release id) _ _
  simp only [outline, Queue.outline, hq]
  rfl

omit [BatchStore σ] in
theorem release_outline (id : SubscriptionId) (w : Intake σ) :
    w.outline.release id = (.ok 0, w.outline) :=
  rfl

theorem drain_outline (w : Intake σ) : w.outline.drain = (.ok (), w.drain.2.outline) := rfl

end Intake

/-! ### Handled events -/

namespace Intake
variable {σ : Type} [BatchStore σ]

/-- Every batch that was handed over was stored. -/
def Flawless (w : Intake (Ledger σ)) : Prop := w.store.Flawless

theorem Flawless.of_called {calls : List Queue.Call} {w w' : Intake (Ledger σ)} (h : w'.Flawless)
    (hc : Called calls w w') : w.Flawless := by
  rw [Flawless, hc.store] at h
  exact h.of_persistAll

theorem Flawless.flush_ok {b : Batch} {s : Ledger σ} (h : (Queue.flush b s).2.Flawless) :
    (Queue.flush b s).1 = .ok b.records.length := by
  rw [Queue.flush_store] at h
  exact Queue.flush_fst_of_persist (Ledger.Flawless.persist_ok h)

/-- Only a closed queue refuses a record. -/
theorem Flawless.enqueue {id : SubscriptionId} {r : Record} {w : Intake (Ledger σ)}
    (h : (w.enqueue id r).2.Flawless) :
    (w.enqueue id r).1.map (fun _ => ()) = if w.queue.closed then .error .closed else .ok () := by
  have hr := Queue.refused_iff (q := w.queue) id r
  simp only [Intake.enqueue, Queue.enqueue, Flawless] at h ⊢
  rcases ha : w.queue.add id r with ⟨_ | n | b, q⟩ <;> rw [ha] at h hr
  · simp [hr.mp rfl, Except.map]
  · simp [mt hr.mpr (by simp), Except.map]
  · simp [mt hr.mpr (by simp), Flawless.flush_ok h, Except.map]

theorem Flawless.release_ok {id : SubscriptionId} {w : Intake (Ledger σ)} (h : (w.release id).2.Flawless) :
    ∃ n, (w.release id).1 = .ok n := by
  simp only [Intake.release, Queue.release, Flawless] at h ⊢
  rcases hr : w.queue.remove id with ⟨_ | b, q⟩
  · exact ⟨0, rfl⟩
  · rw [hr] at h
    exact ⟨b.records.length, Flawless.flush_ok h⟩

theorem Flawless.drain_ok {w : Intake (Ledger σ)} (h : w.drain.2.Flawless) : w.drain.1 = .ok () := by
  have hstore : w.drain.2.store = _ := Queue.flushAll_store w.queue.close.1 w.store
  have hresult : w.drain.1 = _ := Queue.flushAll_fst w.queue.close.1 w.store
  have hok : (BatchStore.answers w.queue.close.1 w.store).findSome? Queue.lost? = none := by
    simp only [List.findSome?_eq_none_iff, Queue.lost?_eq_none_iff]
    intro a ha
    refine h ⟨a.1.records, a.2⟩ ?_
    rw [hstore, Ledger.entries_persistAll]
    exact List.mem_append_right _ (List.mem_map_of_mem ha)
  rw [hresult, hok]

theorem handle_fst (handler : PersistingHandler) (id : SubscriptionId) (info : Meta) (p : Payload)
    (w : Intake σ) :
    (handle handler id info p w).1 =
      if p.category = handler.category then
        (((w.observe info p).enqueue id (Record.ofEvent info p)).1.map fun _ => ()).mapError HandlerError.mk
      else .ok () := by
  simp only [handle]
  split
  · split <;> rename_i he <;> rw [he] <;> rfl
  · rfl

theorem handle_outline (handler : PersistingHandler) (id : SubscriptionId) (info : Meta) (p : Payload)
    {w : Intake (Ledger σ)} (h : (handle handler id info p w).2.Flawless) :
    handle handler id info p w.outline =
      ((handle handler id info p w).1, (handle handler id info p w).2.outline) := by
  have hobserve : w.outline.observe info p = (w.observe info p).outline := rfl
  rw [handle_snd] at h ⊢
  refine Prod.ext ?_ ?_
  · rw [handle_fst, handle_fst]
    split at h
    · rw [h.enqueue, hobserve, enqueue_outline]
      cases (w.observe info p).queue.closed <;> rfl
    · simp_all
  · rw [handle_snd]
    split
    · rw [hobserve, enqueue_outline, outline_enqueue_snd]
    · rfl

theorem callEach_outline (handler : PersistingHandler) (id : SubscriptionId) (info : Meta)
    (events : List Payload) {w : Intake (Ledger σ)} (h : (callEach handle handler id info events w).2.Flawless) :
    callEach handle handler id info events w.outline =
      ((callEach handle handler id info events w).1, (callEach handle handler id info events w).2.outline) := by
  induction events generalizing w with
  | nil => rfl
  | cons p rest ih =>
    have hfirst : (handle handler id info p w).2.Flawless :=
      Flawless.of_called h (called_callEach handler id info rest _)
    simp only [callEach, handle_outline handler id info p hfirst, ih (w := (handle handler id info p w).2) h]

theorem dispatch_outline (registry : Registry PersistingHandler) (id : SubscriptionId) (raw : String)
    {w : Intake (Ledger σ)} (h : (dispatch handle registry id raw w).2.Flawless) :
    dispatch handle registry id raw w.outline =
      ((dispatch handle registry id raw w).1, (dispatch handle registry id raw w).2.outline) := by
  simp only [dispatch] at h ⊢
  cases hd : Envelope.decode raw with
  | error e => rfl
  | ok envelope =>
    cases hl : registry.lookup id with
    | none => rfl
    | some route =>
      simp only [hd, hl, deliver_snd] at h
      simp only [deliver_eq, callEach_outline _ _ _ _ h]
      cases envelope.payloads.findSome? malformed? <;> rfl

end Intake

/-! ### Requests -/

namespace Subscription.Manager
variable {σ τ : Type}

/-- A manager without its records. -/
def outline (m : Manager σ τ) : Manager VoidStore τ := m.withIntake m.intake.outline

theorem subscribe_outline [Node τ] (c : Category) (m : Manager σ τ) :
    m.outline.subscribe c = ((m.subscribe c).1, (m.subscribe c).2.outline) := by
  rw [outline, outline, subscribe_withIntake, intake_subscribe]

theorem subscribeWithRetry_outline [Node τ] (c : Category) (retries : Nat) (m : Manager σ τ) :
    m.outline.subscribeWithRetry c retries =
        ((m.subscribeWithRetry c retries).1, (m.subscribeWithRetry c retries).2.outline) ∧
      m.outline.retryMoves c retries = m.retryMoves c retries := by
  obtain ⟨hrun, hmoves, hintake⟩ := subscribeWithRetry_withIntake c retries m m.intake.outline
  rw [outline, outline, hintake]
  exact ⟨hrun, hmoves⟩

theorem subscribeAll_outline [BatchStore σ] [Node τ] (retries : Nat) (categories : List Category)
    (m : Manager σ τ) :
    m.outline.subscribeAll retries categories =
        ((m.subscribeAll retries categories).1, (m.subscribeAll retries categories).2.outline) ∧
      m.outline.subscribeAllMoves retries categories = m.subscribeAllMoves retries categories := by
  obtain ⟨hrun, hmoves, hintake⟩ := subscribeAll_withIntake retries categories m m.intake.outline
  rw [outline, outline, hintake]
  exact ⟨hrun, hmoves⟩

section Pushes
variable [BatchStore σ]

theorem push_outline (id : SubscriptionId) (raw : String) {m : Manager (Ledger σ) τ}
    (h : (m.push id raw).2.intake.Flawless) :
    m.outline.push id raw = ((m.push id raw).1, (m.push id raw).2.outline) := by
  have hdispatch : dispatch Intake.handle m.outline.registry id raw m.outline.intake = _ :=
    Intake.dispatch_outline m.registry id raw h
  rw [push, hdispatch]
  rfl

theorem notify_outline (raw : String) {m : Manager (Ledger σ) τ} (h : (m.notify raw).2.intake.Flawless) :
    m.outline.notify raw = ((m.notify raw).1, (m.notify raw).2.outline) := by
  rw [notify_eq] at h ⊢
  rw [notify_eq]
  cases hn : Notification.decode raw with
  | error e => rfl
  | ok n =>
    rw [hn] at h
    exact push_outline n.subscription n.result h

end Pushes

section Closing
variable [BatchStore σ] [Node τ]

theorem Unsubscribed.outline {c : Category} {m m' : Manager (Ledger σ) τ} {result : Except LifecycleError Unit}
    (h : Unsubscribed c m result m') (hm : m'.intake.Flawless) : Unsubscribed c m.outline result m'.outline := by
  cases h with
  | idle hc => exact .idle hc
  | failed hs hn => exact .failed hs hn
  | rejected hs hn => exact .rejected hs hn
  | unrouted hs hn hr => exact .unrouted hs hn hr
  | @released id _ result intake hs hn hr hi =>
    cases (congrArg Prod.snd hi : (m.intake.release id).2 = _)
    obtain ⟨n, hn'⟩ := Intake.Flawless.release_ok hm
    cases (congrArg Prod.fst hi : (m.intake.release id).1 = _).symm.trans hn'
    have hrelease : m.outline.intake.release id = (.ok 0, (m.intake.release id).2.outline) := by
      rw [Intake.outline_release_snd]
      exact Intake.release_outline id m.intake
    exact Unsubscribed.released (m := m.outline) hs hn hr hrelease

theorem unsubscribe_outline (c : Category) {m : Manager (Ledger σ) τ}
    (h : (m.unsubscribe c).2.intake.Flawless) :
    m.outline.unsubscribe c = ((m.unsubscribe c).1, (m.unsubscribe c).2.outline) :=
  ((unsubscribed c m).outline h).eq

/-! ### Moves -/

theorem flawless_of_move {move : Move} {m : Manager (Ledger σ) τ} (h : (move.run m).intake.Flawless) :
    m.intake.Flawless := by
  cases move with
  | subscribe c =>
    have ho := subscribed c m
    rw [Move.run] at h
    generalize (m.subscribe c).1 = result, (m.subscribe c).2 = m' at ho h
    cases ho <;> exact h
  | unsubscribe c =>
    have ho := unsubscribed c m
    rw [Move.run] at h
    generalize (m.unsubscribe c).1 = result, (m.unsubscribe c).2 = m' at ho h
    cases ho with
    | idle | failed | rejected | unrouted => exact h
    | released _ _ _ hrel =>
      cases (congrArg Prod.snd hrel : (m.intake.release _).2 = _)
      exact Intake.Flawless.of_called h (m.intake.called_release _)
  | push id raw =>
    have h : (dispatch Intake.handle m.registry id raw m.intake).2.Flawless := h
    rcases dispatch_cases Intake.handle m.registry id raw m.intake with
      ⟨_, _, he, _⟩ | ⟨route, info, entries, _, _, he⟩
    · rwa [he] at h
    · rw [he, deliver_snd] at h
      exact h.of_called (Intake.called_callEach route.handler id info (events entries) m.intake)
  | refuse => exact h
  | close => exact Intake.Flawless.of_called h m.intake.called_drain

theorem flawless_of_after {moves : List Move} {m : Manager (Ledger σ) τ}
    (h : (m.after moves).intake.Flawless) : m.intake.Flawless := by
  induction moves generalizing m with
  | nil => exact h
  | cons move rest ih => exact flawless_of_move (ih h)

theorem run_outline {move : Move} {m : Manager (Ledger σ) τ} (h : (move.run m).intake.Flawless) :
    move.run m.outline = (move.run m).outline := by
  cases move with
  | subscribe c => exact congrArg Prod.snd (subscribe_outline c m)
  | unsubscribe c => exact congrArg Prod.snd (unsubscribe_outline c h)
  | push id raw => exact congrArg Prod.snd (push_outline id raw h)
  | refuse | close => rfl

/-- The same records come in. -/
theorem filesAll_outline {moves : List Move} {m : Manager (Ledger σ) τ}
    (h : (m.after moves).intake.Flawless) : filesAll moves m.outline = filesAll moves m := by
  induction moves generalizing m with
  | nil => rfl
  | cons move rest ih =>
    have hfiles : move.files m.outline = move.files m := by cases move <;> rfl
    rw [filesAll, filesAll, hfiles, run_outline (flawless_of_after h), ih h]

theorem unsubscribeAll_outline (categories : List Category) {m : Manager (Ledger σ) τ}
    (h : (m.unsubscribeAll categories).2.intake.Flawless) :
    m.outline.unsubscribeAll categories =
      ((m.unsubscribeAll categories).1, (m.unsubscribeAll categories).2.outline) := by
  induction categories generalizing m with
  | nil => rfl
  | cons c rest ih =>
    have hsnd := unsubscribeAll_snd rest (m.unsubscribe c).2
    have hlast : ((m.unsubscribe c).2.after (rest.map .unsubscribe)).intake.Flawless := by
      rwa [unsubscribeAll_snd] at h
    have hrest := ih (m := (m.unsubscribe c).2) (hsnd ▸ hlast)
    simp only [unsubscribeAll, unsubscribe_outline c (flawless_of_after hlast)]
    generalize m.unsubscribe c = answer at hrest ⊢
    obtain ⟨e | _, m'⟩ := answer
    · simp only [hrest]
    · exact hrest

theorem shutdown_outline {m : Manager (Ledger σ) τ} (h : m.shutdown.2.intake.Flawless) :
    m.outline.shutdown = (m.shutdown.1, m.shutdown.2.outline) ∧
      m.outline.shutdownMoves = m.shutdownMoves := by
  refine ⟨?_, rfl⟩
  cases hd : m.shutDown with
  | true =>
    have hdo : m.outline.shutDown = true := hd
    simp [shutdown, hd, hdo]
  | false =>
    have hdo : m.outline.shutDown = false := hd
    rw [shutdown_snd, if_neg (by simp [hd])] at h
    have hok := Intake.Flawless.drain_ok h
    have hclosed : { m.outline with shutDown := true }.unsubscribeAll (m.outline.states.map Prod.fst) = _ :=
      unsubscribeAll_outline (m.states.map Prod.fst) (m := { m with shutDown := true })
        (Intake.Flawless.of_called h (Intake.called_drain _))
    simp only [shutdown, hd, hdo, Bool.false_eq_true, if_false, hclosed]
    generalize { m with shutDown := true }.unsubscribeAll (m.states.map Prod.fst) = answer at hok
    obtain ⟨errors, closed⟩ := answer
    have hdrain : closed.intake.drain = (.ok (), closed.intake.drain.2) := Prod.ext hok rfl
    have hdraino : closed.outline.intake.drain = (.ok (), closed.intake.drain.2.outline) :=
      Intake.drain_outline closed.intake
    simp only [hdraino]
    rw [hdrain]
    cases errors <;> rfl

end Closing

end Subscription.Manager

end EventIntake
