import EventIntake.Proofs.Queue.Runs
import EventIntake.Proofs.Store.Ledger
import EventIntake.Store.Memory

/-! A buffer leaves the queue as soon as it reaches the threshold, so it never holds as many records, and every
batch that is stored for that reason holds just as many. -/
namespace EventIntake.Queue
open Event

/-! ### Buffers -/

theorem Sound.pending_lt {q : Queue} (hs : q.Sound) (id : SubscriptionId) :
    (q.pending id).length < q.threshold := by
  rw [pending]
  cases h : Sorted.find? id q.buffers with
  | none => exact q.threshold_pos
  | some records => exact (hs.partly_filled _ (Sorted.mem_of_find? h)).2

/-- The records of a subscription after a record was added to an open queue. -/
theorem pending_add {q : Queue} (hs : q.Sound) (ho : q.closed = false) (id j : SubscriptionId) (r : Record) :
    (q.add id r).2.pending j =
      if j = id then
        if (q.pending id).length + 1 < q.threshold then q.pending id ++ [r] else []
      else q.pending j := by
  simp only [add, ho, Bool.false_eq_true, if_false, List.length_append, List.length_singleton]
  by_cases hj : j = id
  · subst hj
    split
    · simp [pending, Sorted.find?_insert]
    · simp [pending, hs.ascending.find?_erase]
  · split
    · simp [pending, Sorted.find?_insert, hj]
    · simp [pending, hs.ascending.find?_erase, hj]

/-- What becomes of a record that an open queue is given. -/
theorem add_fst {q : Queue} (ho : q.closed = false) (id : SubscriptionId) (r : Record) :
    (q.add id r).1 =
      if (q.pending id).length + 1 < q.threshold then .buffered ((q.pending id).length + 1)
      else .full ⟨id, q.pending id ++ [r]⟩ := by
  simp only [add, ho, Bool.false_eq_true, if_false, List.length_append, List.length_singleton]
  split <;> rfl

theorem batch?_add {q : Queue} (ho : q.closed = false) (id : SubscriptionId) (r : Record) :
    (q.add id r).1.batch? =
      if (q.pending id).length + 1 < q.threshold then none else some ⟨id, q.pending id ++ [r]⟩ := by
  rw [add_fst ho]
  split <;> rfl

theorem pending_remove {q : Queue} (hs : q.Sound) (id j : SubscriptionId) :
    (q.remove id).2.pending j = if j = id then [] else q.pending j := by
  by_cases hj : j = id <;> simp [remove, pending, hs.ascending.find?_erase, hj]

namespace Call

theorem threshold_next (c : Call) (q : Queue) : (c.next q).threshold = q.threshold := by
  cases c with
  | enqueue id r =>
    simp only [next, add]
    split
    · rfl
    · split <;> rfl
  | release | drain => rfl

/-- Whether the call adds a record for the subscription. -/
def addsFor (id : SubscriptionId) : Call → Bool
  | enqueue j _ => j = id
  | _ => false

/-- Whether the call takes out the buffer of the subscription. -/
def takes (id : SubscriptionId) : Call → Bool
  | enqueue _ _ => false
  | release j => j = id
  | drain => true

/-- The batches of the subscription among those that leave the queue. -/
def handedFor (id : SubscriptionId) (c : Call) (q : Queue) : List Batch :=
  (c.handed q).filter fun b => b.subscription = id

/-- What a call that does not take out the buffer of the subscription does to it: it stays below the threshold, and
what it loses are whole batches. -/
theorem length_pending_next {q : Queue} (hs : q.Sound) (ho : q.closed = false) {id : SubscriptionId} {c : Call}
    (hc : c.takes id = false) :
    (c.next q).closed = false ∧
      q.threshold * (c.handedFor id q).length + ((c.next q).pending id).length =
        (q.pending id).length + (if c.addsFor id then 1 else 0) := by
  cases c with
  | enqueue j r =>
    refine ⟨(closed_add q j r).trans ho, ?_⟩
    simp only [handedFor, handed, next, batch?_add ho, pending_add hs ho, addsFor, decide_eq_true_eq]
    by_cases hj : id = j
    · subst hj
      have hlt := hs.pending_lt id
      split
      · simp
      · simp
        omega
    · have hj' : ¬j = id := Ne.symm hj
      split <;> simp [hj']
  | release j =>
    have hj : ¬j = id := by simpa [takes] using hc
    have hj' : ¬id = j := Ne.symm hj
    refine ⟨ho, ?_⟩
    simp only [handedFor, handed, next, pending_remove hs, addsFor]
    cases h : Sorted.find? j q.buffers <;> simp [remove, h, hj, hj']
  | drain => cases hc

end Call

/-! ### Runs -/

section Runs
variable {σ : Type} [BatchStore σ]

theorem threshold_runAll (calls : List Call) (q : Queue) (s : σ) :
    (runAll calls q s).2.1.threshold = q.threshold := by
  induction calls generalizing q s with
  | nil => rfl
  | cons c rest ih => exact (ih _ _).trans (c.run_queue q s ▸ c.threshold_next q)

/-- As long as nothing else takes out the buffer of a subscription, its records leave in whole batches. -/
theorem length_pending_runAll {calls : List Call} {q : Queue} (hs : q.Sound) (ho : q.closed = false) (s : σ)
    {id : SubscriptionId} (hcalls : ∀ c ∈ calls, c.takes id = false) :
    q.threshold * ((handedAll calls q).filter fun b => b.subscription = id).length +
        ((runAll calls q s).2.1.pending id).length =
      (q.pending id).length + calls.countP (Call.addsFor id) := by
  induction calls generalizing q s with
  | nil => simp [handedAll, runAll]
  | cons c rest ih =>
    obtain ⟨hc, hrest⟩ := List.forall_mem_cons.mp hcalls
    obtain ⟨hopen, hlength⟩ := c.length_pending_next hs ho hc
    have hlater := ih (c.sound_next hs) hopen (c.run q s).2.2 hrest
    have hrun : (runAll (c :: rest) q s).2.1 = (runAll rest (c.next q) (c.run q s).2.2).2.1 := by
      rw [← c.run_queue q s]
      rfl
    rw [c.threshold_next] at hlater
    rw [Call.handedFor] at hlength
    rw [hrun, handedAll, List.filter_append, List.length_append, List.countP_cons, Nat.mul_add]
    omega

/-- From an empty buffer on, every threshold of records makes a batch. -/
theorem batches_runAll {calls : List Call} {q : Queue} (hs : q.Sound) (ho : q.closed = false) (s : σ)
    {id : SubscriptionId} (hempty : q.pending id = []) (hcalls : ∀ c ∈ calls, c.takes id = false) :
    ((handedAll calls q).filter fun b => b.subscription = id).length = calls.countP (Call.addsFor id) / q.threshold ∧
      ((runAll calls q s).2.1.pending id).length = calls.countP (Call.addsFor id) % q.threshold := by
  have hlt := (sound_runAll calls hs s).pending_lt id
  have hlength := length_pending_runAll hs ho s hcalls
  rw [threshold_runAll] at hlt
  rw [hempty, List.length_nil, Nat.zero_add, Nat.add_comm] at hlength
  obtain ⟨hbatches, hpending⟩ := (Nat.div_mod_unique q.threshold_pos).mpr ⟨hlength, hlt⟩
  exact ⟨hbatches.symm, hpending.symm⟩

/-- Batches that no added record completed are not empty, and are short of the threshold. -/
theorem Call.length_handed {c : Call} {q : Queue} (hs : q.Sound) (hc : ∀ id, c.addsFor id = false) :
    ∀ b ∈ c.handed q, 1 ≤ b.records.length ∧ b.records.length ≤ q.threshold - 1 := by
  intro b hb
  have hother : ∀ id r, c ≠ enqueue id r := by
    rintro id r rfl
    simpa [addsFor] using hc id
  obtain ⟨hne, hlt⟩ := hs.partly_filled _ (mem_buffers hother hb)
  exact ⟨List.length_pos_iff.mpr hne, Nat.le_sub_one_of_lt hlt⟩

/-! ### What a store is asked -/

/-- What becomes of a record that an open queue with threshold `t` is given: it waits with those before it, or they
are stored together, and the store is asked just once. -/
inductive Enqueued (t : Nat) (id : SubscriptionId) (r : Record) (q : Queue) (s : Ledger σ) :
    Except QueueError Outcome → Queue → Ledger σ → Prop
  | buffered {q' : Queue} :
      q'.pending id = q.pending id ++ [r] → (q'.pending id).length < t →
      Enqueued t id r q s (.ok (.buffered (q'.pending id).length)) q' s
  | stored {q' : Queue} {s' : Ledger σ} :
      (q.pending id).length = t - 1 → q'.pending id = [] →
      s'.entries = s.entries ++ [⟨q.pending id ++ [r], .ok ()⟩] →
      Enqueued t id r q s (.ok (.flushed t)) q' s'
  | lost {q' : Queue} {s' : Ledger σ} {e : StorageError} :
      (q.pending id).length = t - 1 → q'.pending id = [] →
      s'.entries = s.entries ++ [⟨q.pending id ++ [r], .error e⟩] →
      Enqueued t id r q s (.error (.flush id t e)) q' s'

theorem enqueued {q : Queue} (hs : q.Sound) (ho : q.closed = false) (id : SubscriptionId) (r : Record) (s : Ledger σ) :
    Enqueued q.threshold id r q s (q.enqueue id r s).1 (q.enqueue id r s).2.1 (q.enqueue id r s).2.2 := by
  have hlt := hs.pending_lt id
  have hpending := pending_add hs ho id id r
  simp only [enqueue]
  by_cases hl : (q.pending id).length + 1 < q.threshold
  · have hadd : q.add id r = (.buffered ((q.pending id).length + 1), (q.add id r).2) :=
      Prod.ext ((add_fst ho id r).trans (if_pos hl)) rfl
    rw [if_pos rfl, if_pos hl] at hpending
    rw [hadd]
    have hlength : ((q.add id r).2.pending id).length = (q.pending id).length + 1 := by simp [hpending]
    rw [← hlength]
    exact .buffered hpending (hlength ▸ hl)
  · have hadd : q.add id r = (.full ⟨id, q.pending id ++ [r]⟩, (q.add id r).2) :=
      Prod.ext ((add_fst ho id r).trans (if_neg hl)) rfl
    have hfull : (q.pending id).length = q.threshold - 1 := by omega
    have hlength : (q.pending id ++ [r]).length = q.threshold := by
      rw [List.length_append, List.length_singleton]
      omega
    rw [if_pos rfl, if_neg hl] at hpending
    rw [hadd]
    simp only [flush, BatchStore.persist, Ledger.persist, hlength]
    cases hanswer : (BatchStore.persist (q.pending id ++ [r]) s.store).1 with
    | ok _ => exact .stored hfull hpending rfl
    | error e => exact .lost hfull hpending rfl

/-- The store is asked for every batch that leaves the queue, and for nothing else. -/
theorem records_runAll (calls : List Call) (q : Queue) (s : Ledger σ) :
    (runAll calls q s).2.2.entries.map Ledger.Entry.records =
      s.entries.map Ledger.Entry.records ++ (handedAll calls q).map Batch.records := by
  have hentries := Ledger.entries_persistAll (handedAll calls q) s
  rw [← runAll_store] at hentries
  have hrecords : (BatchStore.answers (handedAll calls q) s).map (fun a => a.1.records) =
      (handedAll calls q).map Batch.records := by
    have hbatches := congrArg (List.map Batch.records) (map_fst_answers (handedAll calls q) s)
    rwa [List.map_map] at hbatches
  rw [hentries, List.map_append, List.map_map, ← hrecords]
  rfl

theorem subscription_enqueues (id : SubscriptionId) (records : List Record) (q : Queue) :
    ∀ b ∈ handedAll (records.map (Call.enqueue id)) q, b.subscription = id := by
  induction records generalizing q with
  | nil => simp [handedAll]
  | cons r rest ih =>
    intro b hb
    rcases List.mem_append.mp hb with hb | hb
    · rw [Call.eq_of_mem_handed hb]
    · exact ih _ b hb

/-- Records that are added one after the other are stored by the threshold. -/
theorem entries_enqueues {q : Queue} (hs : q.Sound) (ho : q.closed = false) (s : Ledger σ) {id : SubscriptionId}
    (hempty : q.pending id = []) (records : List Record) :
    let (_, q', s') := runAll (records.map (Call.enqueue id)) q s
    s'.entries.length = s.entries.length + records.length / q.threshold ∧
      (q'.pending id).length = records.length % q.threshold := by
  have htakes : ∀ c ∈ records.map (Call.enqueue id), c.takes id = false := by
    intro c hc
    obtain ⟨r, _, rfl⟩ := List.mem_map.mp hc
    rfl
  have hcount : (records.map (Call.enqueue id)).countP (Call.addsFor id) = records.length := by
    rw [List.countP_map, List.countP_eq_length]
    intro r _
    simp [Call.addsFor]
  have hall : (handedAll (records.map (Call.enqueue id)) q).filter (fun b => b.subscription = id) =
      handedAll (records.map (Call.enqueue id)) q :=
    List.filter_eq_self.mpr fun b hb => by simpa using subscription_enqueues id records q b hb
  obtain ⟨hbatches, hpending⟩ := batches_runAll hs ho s hempty htakes
  have hlength := congrArg List.length (records_runAll (records.map (Call.enqueue id)) q s)
  rw [hall, hcount] at hbatches
  rw [hcount] at hpending
  rw [List.length_map, List.length_append, List.length_map, List.length_map, hbatches] at hlength
  exact ⟨hlength, hpending⟩

/-- A new queue stores the records of a subscription by the threshold `t`, where zero counts as one, whatever the store
answers. No buffer ever holds `t` records. A record that is added waits, and the store is not asked, or it is the last
of `t` that the store is asked for at once. All other batches are shorter, and none is empty. From an empty
buffer on, `m` records make `m / t` batches and leave `m % t` waiting, also with calls for other subscriptions in
between. -/
theorem stored_by_threshold (threshold : Nat) (calls : List Call) (store : σ) :
    let t := max threshold 1
    let (_, q, s) := runAll calls (new threshold) (⟨store, []⟩ : Ledger σ)
    (∀ id, (q.pending id).length < t) ∧
    (q.closed = false → ∀ id r,
      let (result, q', s') := q.enqueue id r s
      Enqueued t id r q s result q' s') ∧
    (∀ c : Call, (∀ id, c.addsFor id = false) →
      ∃ made, (c.run q s).2.2.entries = s.entries ++ made ∧
        ∀ e ∈ made, 1 ≤ e.records.length ∧ e.records.length ≤ t - 1) ∧
    (q.closed = false → ∀ id, q.pending id = [] →
      (∀ records : List Record,
        let (_, q', s') := runAll (records.map (Call.enqueue id)) q s
        s'.entries.length = s.entries.length + records.length / t ∧
          (q'.pending id).length = records.length % t) ∧
      ∀ later : List Call, (∀ c ∈ later, c.takes id = false) →
        let m := later.countP (Call.addsFor id)
        let (_, q', s') := runAll later q s
        s'.entries.map Ledger.Entry.records =
            s.entries.map Ledger.Entry.records ++ (handedAll later q).map Batch.records ∧
          ((handedAll later q).filter fun b => b.subscription = id).length = m / t ∧
          (q'.pending id).length = m % t) := by
  intro t
  have hs := sound_runAll calls (sound_new threshold) (⟨store, []⟩ : Ledger σ)
  have ht : (runAll calls (new threshold) (⟨store, []⟩ : Ledger σ)).2.1.threshold = t :=
    threshold_runAll calls (new threshold) _
  generalize runAll calls (new threshold) (⟨store, []⟩ : Ledger σ) = reached at hs ht
  obtain ⟨answers, q, s⟩ := reached
  dsimp only at hs ht ⊢
  rw [← ht]
  refine ⟨hs.pending_lt, fun ho id r => enqueued hs ho id r s, fun c hc => ?_,
    fun ho id hempty => ⟨entries_enqueues hs ho s hempty, ?_⟩⟩
  · have hentries : (c.run q s).2.2.entries = _ :=
      (congrArg (fun after => after.2.entries) (c.run_state q s)).trans (Ledger.entries_persistAll (c.handed q) s)
    refine ⟨_, hentries, fun e he => ?_⟩
    obtain ⟨a, ha, rfl⟩ := List.mem_map.mp he
    exact c.length_handed hs hc a.1 (map_fst_answers (c.handed q) s ▸ List.mem_map_of_mem ha)
  · intro later hlater
    exact ⟨records_runAll later q s, batches_runAll hs ho s hempty hlater⟩

end Runs

/-- Seven records by threes, in front of a store that fails, for a subscription that had one before. -/
theorem seven_stored_by_three :
    let (_, q, s) := runAll [.enqueue 1 [], .release 1] (new 3) (⟨{ failing := true }, []⟩ : Ledger MemoryStore)
    q.closed = false ∧ q.pending 1 = [] ∧
      let (_, q', s') := runAll ((List.replicate 7 []).map (Call.enqueue 1)) q s
      s'.entries.length = s.entries.length + 2 ∧ (q'.pending 1).length = 1 := by
  have h := stored_by_threshold 3 [.enqueue 1 [], .release 1] ({ failing := true } : MemoryStore)
  exact ⟨rfl, rfl, (h.2.2.2 rfl 1 rfl).1 (List.replicate 7 [])⟩

end EventIntake.Queue
