import EventIntake.Intake
import EventIntake.Proofs.Queue.Runs
import EventIntake.Proofs.Store.Memory
import EventIntake.Proofs.Subscription.Dispatch

/-! The way of records through an intake: what it takes is handed to the store or buffered, in the order
of each subscription. -/
namespace EventIntake.Intake
open Event Queue Subscription

variable {σ : Type} [BatchStore σ]

/-- Given records follow what was buffered for their subscriptions. All of it was handed to the store in
order, or is still buffered. -/
structure Took (given : List (SubscriptionId × Record)) (w w' : Intake σ) : Prop where
  sound : w'.queue.Sound
  handed : ∃ batches, w'.store = BatchStore.persistAll batches w.store ∧
    ∀ id, recordsOf id batches ++ w'.queue.pending id = w.queue.pending id ++ recordsFor id given

namespace Took

theorem refl {w : Intake σ} (hs : w.queue.Sound) : Took [] w w :=
  ⟨hs, [], rfl, by simp⟩

theorem trans {as bs : List (SubscriptionId × Record)} {w₀ w₁ w₂ : Intake σ} (ha : Took as w₀ w₁)
    (hb : Took bs w₁ w₂) : Took (as ++ bs) w₀ w₂ := by
  obtain ⟨_, first, hfirst, hpending⟩ := ha
  obtain ⟨hs, second, hsecond, hpending'⟩ := hb
  refine ⟨hs, first ++ second, ?_, fun id => ?_⟩
  · rw [hsecond, hfirst, persistAll_append]
  · rw [recordsOf_append, List.append_assoc, hpending' id, ← List.append_assoc, hpending id,
      recordsFor_append, List.append_assoc]

end Took

/-- The calls are all that happened to the queue and the store. -/
def Called (calls : List Call) (w w' : Intake σ) : Prop :=
  (w'.queue, w'.store) = (runAll calls w.queue w.store).2

namespace Called

theorem refl (w : Intake σ) : Called [] w w := rfl

theorem trans {as bs : List Call} {w₀ w₁ w₂ : Intake σ} (ha : Called as w₀ w₁) (hb : Called bs w₁ w₂) :
    Called (as ++ bs) w₀ w₂ := by
  have hmiddle := Prod.mk.inj ha
  rw [Called, hmiddle.1, hmiddle.2] at hb
  rw [Called, hb, runAll_append]

theorem sound {calls : List Call} {w w' : Intake σ} (h : Called calls w w') (hs : w.queue.Sound) :
    w'.queue.Sound := by
  rw [(Prod.mk.inj h).1]
  exact sound_runAll calls hs w.store

/-- What the calls hand over and keep, in the order of each subscription. -/
theorem conserves {calls : List Call} {w w' : Intake σ} (h : Called calls w w') (hs : w.queue.Sound)
    (id : SubscriptionId) :
    recordsOf id (handedAll calls w.queue) ++ w'.queue.pending id =
      w.queue.pending id ++ (runAll calls w.queue w.store).1.filterMap (accepted? id) := by
  rw [(Prod.mk.inj h).1]
  exact runAll_conserves calls hs w.store id

theorem store {calls : List Call} {w w' : Intake σ} (h : Called calls w w') :
    w'.store = BatchStore.persistAll (handedAll calls w.queue) w.store :=
  (Prod.mk.inj h).2.trans (runAll_store calls w.queue w.store)

/-- What holds of all that is buffered or accepted holds of all that is handed over or kept. -/
theorem forall_of_accepted {calls : List Call} {w w' : Intake σ} (h : Called calls w w')
    (hs : w.queue.Sound) {P : SubscriptionId → Record → Prop}
    (hp : ∀ id, ∀ r ∈ w.queue.pending id, P id r)
    (ha : ∀ id, ∀ r ∈ (runAll calls w.queue w.store).1.filterMap (accepted? id), P id r) :
    (∀ id, ∀ r ∈ w'.queue.pending id, P id r) ∧
      ∀ b ∈ handedAll calls w.queue, ∀ r ∈ b.records, P b.subscription r := by
  have hall : ∀ id, ∀ r ∈ recordsOf id (handedAll calls w.queue) ++ w'.queue.pending id, P id r := by
    intro id r hr
    rw [h.conserves hs id] at hr
    exact (List.mem_append.mp hr).elim (hp id r) (ha id r)
  refine ⟨fun id r hr => hall id r (List.mem_append_right _ hr), fun b hb r hr => ?_⟩
  have hof : r ∈ recordsOf b.subscription (handedAll calls w.queue) :=
    List.mem_flatMap.mpr ⟨b, by simp [hb], hr⟩
  exact hall _ r (List.mem_append_left _ hof)

theorem took {calls : List Call} {given : List (SubscriptionId × Record)} {w w' : Intake σ}
    (h : Called calls w w') (hs : w.queue.Sound)
    (hg : ∀ id, (runAll calls w.queue w.store).1.filterMap (accepted? id) = recordsFor id given) :
    Took given w w' :=
  ⟨h.sound hs, handedAll calls w.queue, h.store, fun id => by rw [h.conserves hs id, hg id]⟩

theorem took_enqueues {given : List (SubscriptionId × Record)} {w w' : Intake σ}
    (h : Called (enqueues given) w w') (hs : w.queue.Sound) (ho : w.queue.closed = false) :
    Took given w w' :=
  h.took hs fun id => by simp [accepted_enqueues, ho]

theorem closed_enqueues {given : List (SubscriptionId × Record)} {w w' : Intake σ}
    (h : Called (enqueues given) w w') : w'.queue.closed = w.queue.closed := by
  rw [(Prod.mk.inj h).1]
  exact Queue.closed_enqueues w.queue w.store given

end Called

theorem called_release (w : Intake σ) (id : SubscriptionId) : Called [.release id] w (w.release id).2 :=
  rfl

theorem called_drain (w : Intake σ) : Called [.drain] w w.drain.2 := rfl

theorem took_release {w : Intake σ} (hs : w.queue.Sound) (id : SubscriptionId) :
    Took [] w (w.release id).2 :=
  (called_release w id).took hs fun _ => rfl

theorem took_drain {w : Intake σ} (hs : w.queue.Sound) : Took [] w w.drain.2 :=
  (called_drain w).took hs fun _ => rfl

theorem closed_release (w : Intake σ) (id : SubscriptionId) :
    (w.release id).2.queue.closed = w.queue.closed :=
  congrArg (fun x => x.1.closed) ((Call.release id).run_state w.queue w.store)

theorem closed_drain (w : Intake σ) : w.drain.2.queue.closed = true :=
  congrArg (fun x => x.1.closed) (Call.drain.run_state w.queue w.store)

/-! ### Handled events -/

/-- The records of the events that a handler stores. -/
def kept (h : PersistingHandler) (id : SubscriptionId) (info : Meta) (events : List Payload) :
    List (SubscriptionId × Record) :=
  (events.filter fun p => p.category = h.category).map fun p => (id, Record.ofEvent info p)

theorem kept_cons (h : PersistingHandler) (id : SubscriptionId) (info : Meta) (p : Payload)
    (rest : List Payload) :
    kept h id info (p :: rest) = kept h id info [p] ++ kept h id info rest := by
  by_cases hp : p.category = h.category <;> simp [kept, hp]

theorem handle_snd (h : PersistingHandler) (id : SubscriptionId) (info : Meta) (p : Payload)
    (w : Intake σ) :
    (handle h id info p w).2 =
      if p.category = h.category then ((w.observe info p).enqueue id (Record.ofEvent info p)).2
      else w := by
  simp only [handle]
  split
  · split <;> rename_i he <;> rw [he]
  · rfl

/-- The rules that look at the event change neither the queue nor the store. -/
theorem called_handle (h : PersistingHandler) (id : SubscriptionId) (info : Meta) (p : Payload)
    (w : Intake σ) : Called (enqueues (kept h id info [p])) w (handle h id info p w).2 := by
  rw [handle_snd]
  by_cases hp : p.category = h.category
  · simp only [kept, hp, decide_true, List.filter_cons_of_pos, List.filter_nil, if_true]
    rfl
  · simpa [kept, hp, enqueues] using Called.refl w

theorem called_callEach (h : PersistingHandler) (id : SubscriptionId) (info : Meta)
    (events : List Payload) (w : Intake σ) :
    Called (enqueues (kept h id info events)) w (callEach handle h id info events w).2 := by
  induction events generalizing w with
  | nil => exact .refl w
  | cons p rest ih =>
    rw [kept_cons, enqueues, List.map_append]
    exact (called_handle h id info p w).trans (ih _)

/-! ### Pushes -/

/-- The records of the calls with an event of the category that is registered for the subscription. -/
def due (registry : Registry PersistingHandler) (calls : List (Invocation PersistingHandler)) :
    List (SubscriptionId × Record) :=
  (calls.filter fun call =>
      (registry.lookup call.subscription).map Route.category = some call.event.category).map
    fun call => (call.subscription, Record.ofEvent call.info call.event)

/-- Every route leads to the handler of its category. -/
def Matched (registry : Registry PersistingHandler) : Prop :=
  ∀ entry ∈ registry.routes, entry.2.handler.category = entry.2.category

theorem due_eq_kept {registry : Registry PersistingHandler} (hm : Matched registry) {id : SubscriptionId}
    {route : Route PersistingHandler} (hl : registry.lookup id = some route) (info : Meta)
    (events : List Payload) :
    due registry (events.map (Invocation.mk route.handler id info)) =
      kept route.handler id info events := by
  have hc := hm _ (Registry.mem_of_lookup hl)
  simp only at hc
  simp [due, kept, List.filter_map, Function.comp_def, hl, hc, eq_comm]

/-- A push enqueues its due records, and nothing else happens to the queue and the store. -/
theorem called_dispatch {registry : Registry PersistingHandler} (hm : Matched registry)
    (id : SubscriptionId) (raw : String) (w : Intake σ) :
    Called (enqueues (due registry (invocations registry id raw))) w
      (dispatch handle registry id raw w).2 := by
  rcases dispatch_cases handle registry id raw w with ⟨hi, _, he, _⟩ | ⟨route, info, entries, hl, hi, he⟩
  · rw [hi, he]
    exact .refl w
  · rw [hi, he, deliver_snd, due_eq_kept hm hl]
    exact called_callEach route.handler id info (events entries) w

theorem due_eq_nil {registry : Registry PersistingHandler} (hc : registry.closed = true)
    (id : SubscriptionId) (raw : String) : due registry (invocations registry id raw) = [] := by
  simp [due, Registry.lookup, hc]

theorem took_dispatch {w : Intake σ} (hs : w.queue.Sound) {registry : Registry PersistingHandler}
    (hm : Matched registry) (hc : registry.closed = w.queue.closed) (id : SubscriptionId)
    (raw : String) :
    Took (due registry (invocations registry id raw)) w (dispatch handle registry id raw w).2 := by
  have hcalled := called_dispatch hm id raw w
  cases ho : w.queue.closed with
  | false => exact hcalled.took_enqueues hs ho
  | true =>
    rw [due_eq_nil (hc.trans ho)] at hcalled ⊢
    exact hcalled.took hs fun _ => rfl

theorem closed_dispatch {registry : Registry PersistingHandler} (hm : Matched registry)
    (id : SubscriptionId) (raw : String) (w : Intake σ) :
    (dispatch handle registry id raw w).2.queue.closed = w.queue.closed :=
  (called_dispatch hm id raw w).closed_enqueues

/-! ### Stores that do not fail -/

theorem Took.working {given : List (SubscriptionId × Record)} {w w' : Intake MemoryStore}
    (h : Took given w w') (hw : w.store.Working) : w'.store.Working := by
  obtain ⟨batches, he, _⟩ := h.handed
  exact he ▸ hw.persistAll batches

theorem flush_ok {s : MemoryStore} (hw : s.Working) (b : Batch) :
    (flush b s).1 = .ok b.records.length :=
  flush_fst_of_persist (hw.persist_ok b.records)

theorem enqueue_ok {q : Queue} (ho : q.closed = false) {s : MemoryStore} (hw : s.Working)
    (id : SubscriptionId) (r : Record) : ∃ outcome, (q.enqueue id r s).1 = .ok outcome := by
  have hr := mt (refused_iff (q := q) id r).mp (by simp [ho])
  simp only [Queue.enqueue]
  rcases h : q.add id r with ⟨_ | n | b, q'⟩
  · exact absurd (congrArg Prod.fst h) hr
  · exact ⟨.buffered n, rfl⟩
  · exact ⟨.flushed b.records.length, by simp [flush_ok hw, Except.map]⟩

theorem handle_ok {w : Intake MemoryStore} (hw : w.store.Working) (ho : w.queue.closed = false)
    (h : PersistingHandler) (id : SubscriptionId) (info : Meta) (p : Payload) :
    (handle h id info p w).1 = .ok () := by
  simp only [handle]
  split
  · obtain ⟨outcome, he⟩ := enqueue_ok (q := w.queue) ho hw id (Record.ofEvent info p)
    have he : ((w.observe info p).enqueue id (Record.ofEvent info p)).1 = .ok outcome := he
    split <;> simp_all
  · rfl

theorem callEach_ok {w : Intake MemoryStore} (hs : w.queue.Sound) (ho : w.queue.closed = false)
    (hw : w.store.Working) (h : PersistingHandler) (id : SubscriptionId) (info : Meta)
    (events : List Payload) :
    ∀ outcome ∈ (callEach handle h id info events w).1, outcome.isOk = true := by
  induction events generalizing w with
  | nil => simp [callEach]
  | cons p rest ih =>
    have hcalled := called_handle h id info p w
    have ht := hcalled.took_enqueues hs ho
    have hp : (handle h id info p w).1.isOk = true := by rw [handle_ok hw ho]; rfl
    refine List.forall_mem_cons.mpr ⟨hp, ?_⟩
    exact ih ht.sound (hcalled.closed_enqueues.trans ho) (ht.working hw)

/-- With such a store no handler call of a push fails. -/
theorem dispatch_handlerFailures {w : Intake MemoryStore} (hs : w.queue.Sound) (hw : w.store.Working)
    {registry : Registry PersistingHandler} (hc : registry.closed = w.queue.closed)
    {id : SubscriptionId} {raw : String} {report : Report}
    (h : (dispatch handle registry id raw w).1 = .ok report) : report.handlerFailures = 0 := by
  rcases dispatch_cases handle registry id raw w with ⟨_, _, he, hr⟩ | ⟨route, _, _, hl, _, he⟩
  · rw [he] at h
    rw [hr report h]
  · have ho := hc.symm.trans (Registry.closed_of_lookup hl)
    rw [he] at h
    exact deliver_handlerFailures (callEach_ok hs ho hw _ _ _ _) h

end EventIntake.Intake
