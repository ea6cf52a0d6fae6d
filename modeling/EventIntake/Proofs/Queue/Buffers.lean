import EventIntake.Proofs.Sorted
import EventIntake.Queue.Basic

/-! What each operation does to the buffers of a queue. -/
namespace EventIntake.Queue
open Event

/-- Each subscription has one buffer, which is neither empty nor full; a closed queue has none. -/
structure Sound (q : Queue) : Prop where
  ascending : Sorted.Ascending q.buffers
  partly_filled : ∀ b ∈ q.buffers, b.2 ≠ [] ∧ b.2.length < q.threshold
  closed_empty : q.closed = true → q.buffers = []

/-- The batches of one subscription, one after the other. -/
def recordsOf (id : SubscriptionId) (batches : List Batch) : List Record :=
  (batches.filter fun b => b.subscription = id).flatMap Batch.records

@[simp] theorem recordsOf_nil (id : SubscriptionId) : recordsOf id [] = [] := rfl

@[simp] theorem recordsOf_append (id : SubscriptionId) (as bs : List Batch) :
    recordsOf id (as ++ bs) = recordsOf id as ++ recordsOf id bs := by
  simp [recordsOf]

@[simp] theorem recordsOf_singleton (id : SubscriptionId) (b : Batch) :
    recordsOf id [b] = if b.subscription = id then b.records else [] := by
  by_cases h : b.subscription = id <;> simp [recordsOf, h]

/-! ### Records with their subscriptions -/

/-- The records of one subscription, in order. -/
def recordsFor (id : SubscriptionId) (records : List (SubscriptionId × Record)) : List Record :=
  (records.filter fun r => r.1 = id).map Prod.snd

/-- The records of batches in order, each with the subscription of its batch. -/
def labelled (batches : List Batch) : List (SubscriptionId × Record) :=
  batches.flatMap fun b => b.records.map (Prod.mk b.subscription)

/-- Every buffered record with its subscription. -/
def buffered (q : Queue) : List (SubscriptionId × Record) :=
  q.buffers.flatMap fun b => b.2.map (Prod.mk b.1)

@[simp] theorem recordsFor_nil (id : SubscriptionId) : recordsFor id [] = [] := rfl

@[simp] theorem recordsFor_append (id : SubscriptionId) (as bs : List (SubscriptionId × Record)) :
    recordsFor id (as ++ bs) = recordsFor id as ++ recordsFor id bs := by
  simp [recordsFor]

theorem labelled_cons (b : Batch) (rest : List Batch) :
    labelled (b :: rest) = b.records.map (Prod.mk b.subscription) ++ labelled rest :=
  List.flatMap_cons

theorem recordsFor_map (id j : SubscriptionId) (records : List Record) :
    recordsFor id (records.map (Prod.mk j)) = if j = id then records else [] := by
  by_cases h : j = id <;> simp [recordsFor, List.filter_map, Function.comp_def, h]

theorem recordsFor_labelled (id : SubscriptionId) (batches : List Batch) :
    recordsFor id (labelled batches) = recordsOf id batches := by
  induction batches with
  | nil => rfl
  | cons b rest ih =>
    rw [labelled_cons, recordsFor_append, recordsFor_map, ih, ← List.singleton_append (l := rest),
      recordsOf_append, recordsOf_singleton]

theorem count_recordsFor (id : SubscriptionId) (r : Record) (records : List (SubscriptionId × Record)) :
    (recordsFor id records).count r = records.count (id, r) := by
  induction records with
  | nil => rfl
  | cons x rest ih =>
    obtain ⟨j, r'⟩ := x
    by_cases h : j = id <;> simp_all [recordsFor, List.count_cons]

/-- Lists with the same records for each subscription have the same records. -/
theorem perm_of_recordsFor {as bs : List (SubscriptionId × Record)}
    (h : ∀ id, recordsFor id as = recordsFor id bs) : as.Perm bs :=
  List.perm_iff_count.mpr fun (id, r) => by rw [← count_recordsFor, h, count_recordsFor]

/-! ### New queues -/

theorem sound_new (threshold : Nat) : (new threshold).Sound :=
  ⟨.nil, by simp [new], fun _ => rfl⟩

/-! ### Buffered records -/

/-- There is a buffer for the subscriptions with records only. -/
theorem Sound.find?_buffers {q : Queue} (hs : q.Sound) (id : SubscriptionId) :
    Sorted.find? id q.buffers = if q.pending id = [] then none else some (q.pending id) := by
  rw [pending]
  cases h : Sorted.find? id q.buffers with
  | none => rfl
  | some records => exact (if_neg (hs.partly_filled _ (Sorted.mem_of_find? h)).1).symm

/-! ### Adding a record -/

/-- The batch that leaves the queue when a record is added. -/
def Added.batch? : Added → Option Batch
  | full b => some b
  | _ => none

theorem add_of_closed {q : Queue} (h : q.closed = true) (id : SubscriptionId) (r : Record) :
    q.add id r = (.refused, q) := by
  simp [add, h]

theorem refused_iff {q : Queue} (id : SubscriptionId) (r : Record) :
    (q.add id r).1 = .refused ↔ q.closed = true := by
  simp only [add]
  split
  · simp_all
  · split <;> simp_all

@[simp] theorem closed_add (q : Queue) (id : SubscriptionId) (r : Record) :
    (q.add id r).2.closed = q.closed := by
  simp only [add]
  split
  · rfl
  · split <;> rfl

/-- An accepted record is the last of its subscription, in the batch that leaves or in the buffer. -/
theorem add_conserves {q : Queue} (hs : q.Sound) (ho : q.closed = false) (id j : SubscriptionId)
    (r : Record) :
    recordsOf j (q.add id r).1.batch?.toList ++ (q.add id r).2.pending j =
      q.pending j ++ if id = j then [r] else [] := by
  simp only [add, ho, Bool.false_eq_true, if_false]
  by_cases hj : id = j
  · subst hj
    split
    · simp [Added.batch?, pending, Sorted.find?_insert]
    · simp [Added.batch?, pending, hs.ascending.find?_erase]
  · have hj' : j ≠ id := Ne.symm hj
    split
    · simp [Added.batch?, pending, Sorted.find?_insert, hj']
    · simp [Added.batch?, pending, hs.ascending.find?_erase, hj, hj']

theorem sound_add {q : Queue} (hs : q.Sound) (id : SubscriptionId) (r : Record) :
    (q.add id r).2.Sound := by
  simp only [add]
  split
  · exact hs
  · rename_i ho
    split
    · rename_i hl
      refine ⟨hs.ascending.insert _ _, fun b hb => ?_, fun hc => absurd hc ho⟩
      rcases Sorted.mem_insert hb with rfl | hb
      · exact ⟨by simp, hl⟩
      · exact hs.partly_filled b hb
    · exact ⟨hs.ascending.erase _,
        fun b hb => hs.partly_filled b ((Sorted.erase_sublist _ _).subset hb), fun hc => absurd hc ho⟩

/-! ### Taking buffers out -/

/-- A removed buffer leaves as a whole, and the others stay. -/
theorem remove_conserves {q : Queue} (hs : q.Sound) (id j : SubscriptionId) :
    recordsOf j (q.remove id).1.toList ++ (q.remove id).2.pending j = q.pending j := by
  by_cases hj : id = j
  · subst hj
    cases h : Sorted.find? id q.buffers <;>
      simp [remove, pending, h, hs.ascending.find?_erase]
  · have hj' : j ≠ id := Ne.symm hj
    cases h : Sorted.find? id q.buffers <;>
      simp [remove, pending, h, hs.ascending.find?_erase, hj, hj']

theorem sound_remove {q : Queue} (hs : q.Sound) (id : SubscriptionId) : (q.remove id).2.Sound where
  ascending := hs.ascending.erase id
  partly_filled b hb := hs.partly_filled b ((Sorted.erase_sublist _ _).subset hb)
  closed_empty hc := by simp [remove, hs.closed_empty hc, Sorted.erase]

theorem close_conserves {q : Queue} (hs : q.Sound) (j : SubscriptionId) :
    recordsOf j q.close.1 ++ q.close.2.pending j = q.pending j := by
  have hf := hs.ascending.filter_key j
  have hb : recordsOf j q.close.1 = (q.buffers.filter fun b => b.1 = j).flatMap Prod.snd := by
    simp only [recordsOf, close, List.filter_map, List.flatMap_map]
    rfl
  rw [hb, hf]
  cases h : Sorted.find? j q.buffers <;> simp [close, pending, h, Sorted.find?]

theorem recordsFor_buffered {q : Queue} (hs : q.Sound) (id : SubscriptionId) :
    recordsFor id q.buffered = q.pending id := by
  have h := close_conserves hs id
  rw [← recordsFor_labelled] at h
  simpa [labelled, close, buffered, pending, Sorted.find?, List.flatMap_map] using h

theorem sound_close (q : Queue) : q.close.2.Sound :=
  ⟨.nil, by simp [close], fun _ => rfl⟩

end EventIntake.Queue
