import EventIntake.Sorted

/-! What a look-up finds after an insertion or a removal, and that both keep the order of keys. -/
namespace EventIntake.Sorted

/-- Strictly ascending keys, so each key once. -/
def Ascending {κ α : Type} [LT κ] (l : List (κ × α)) : Prop := l.Pairwise fun a b => a.1 < b.1

section Lookup
variable {κ α : Type} [DecidableEq κ]

theorem find?_eq_none_iff {k : κ} {l : List (κ × α)} : find? k l = none ↔ k ∉ l.map Prod.fst := by
  induction l with
  | nil => simp [find?]
  | cons b l ih =>
    obtain ⟨k', a⟩ := b
    by_cases h : k = k' <;> simp [find?, h, ih]

theorem mem_of_find? {k : κ} {a : α} {l : List (κ × α)} (h : find? k l = some a) : (k, a) ∈ l := by
  induction l with
  | nil => simp [find?] at h
  | cons b l ih =>
    obtain ⟨k', a'⟩ := b
    simp only [find?] at h
    split at h
    · rename_i hk
      cases hk
      cases h
      exact .head _
    · exact .tail _ (ih h)

theorem find?_eq_some_iff_mem {l : List (κ × α)} (h : (l.map Prod.fst).Nodup) {k : κ} {a : α} :
    find? k l = some a ↔ (k, a) ∈ l := by
  refine ⟨mem_of_find?, fun hm => ?_⟩
  induction l with
  | nil => cases hm
  | cons b l ih =>
    obtain ⟨hb, hl⟩ := List.nodup_cons.mp h
    rcases List.mem_cons.mp hm with rfl | hm
    · simp [find?]
    · have hne : k ≠ b.1 := fun he => hb (he ▸ List.mem_map_of_mem (f := Prod.fst) hm)
      rw [find?, if_neg hne, ih hl hm]

/-- A look-up does not depend on the order of entries whose keys are there once. -/
theorem find?_perm {l l' : List (κ × α)} (hp : l.Perm l') (h : (l.map Prod.fst).Nodup) (k : κ) :
    find? k l = find? k l' := by
  have h' : (l'.map Prod.fst).Nodup := (hp.map Prod.fst).nodup_iff.mp h
  refine Option.ext fun a => ?_
  rw [find?_eq_some_iff_mem h, find?_eq_some_iff_mem h', hp.mem_iff]

theorem filterMap_key {l : List (κ × α)} (h : (l.map Prod.fst).Nodup) (k : κ) :
    (l.filterMap fun b => if b.1 = k then some b.2 else none) = (find? k l).toList := by
  induction l with
  | nil => rfl
  | cons b l ih =>
    obtain ⟨hb, hl⟩ := List.nodup_cons.mp h
    have ht := ih hl
    by_cases hk : b.1 = k
    · rw [hk] at hb
      rw [find?_eq_none_iff.mpr hb] at ht
      simp [find?, hk, ht]
    · simp [find?, hk, Ne.symm hk, ht]

theorem erase_of_find?_eq_none {k : κ} {l : List (κ × α)} (h : find? k l = none) : erase k l = l := by
  induction l with
  | nil => rfl
  | cons b l ih =>
    obtain ⟨k', a⟩ := b
    by_cases hk : k = k'
    · simp [find?, hk] at h
    · simp only [find?, if_neg hk] at h
      rw [erase, if_neg hk, ih h]

/-- What a look-up finds and the other entries are all there is. -/
theorem perm_cons_erase {k : κ} {a : α} {l : List (κ × α)} (h : find? k l = some a) :
    l.Perm ((k, a) :: erase k l) := by
  induction l with
  | nil => cases h
  | cons b l ih =>
    obtain ⟨k', a'⟩ := b
    by_cases hk : k = k'
    · simp only [find?, if_pos hk, Option.some.injEq] at h
      rw [erase, if_pos hk, hk, h]
    · simp only [find?, if_neg hk] at h
      rw [erase, if_neg hk]
      exact ((ih h).cons _).trans (List.Perm.swap _ _ _)

theorem find?_erase_of_ne {j k : κ} (h : j ≠ k) (l : List (κ × α)) :
    find? j (erase k l) = find? j l := by
  induction l with
  | nil => rfl
  | cons b l ih =>
    obtain ⟨k', a⟩ := b
    simp only [erase]
    split
    · rename_i hk
      subst hk
      simp [find?, h]
    · simp only [find?, ih]

theorem erase_sublist (k : κ) (l : List (κ × α)) : (erase k l).Sublist l := by
  induction l with
  | nil => exact .slnil
  | cons b l ih =>
    obtain ⟨k', a⟩ := b
    simp only [erase]
    split
    · exact List.sublist_cons_self _ _
    · exact ih.cons_cons _

theorem find?_insert [LT κ] [DecidableLT κ] (j k : κ) (a : α) (l : List (κ × α)) :
    find? j (insert k a l) = if j = k then some a else find? j l := by
  induction l with
  | nil => rfl
  | cons b l ih =>
    obtain ⟨k', a'⟩ := b
    simp only [insert]
    split
    · rfl
    · split
      · rename_i hk
        subst hk
        simp only [find?]
        split <;> rfl
      · rename_i hk
        simp only [find?, ih]
        by_cases hj : j = k'
        · subst hj
          simp [Ne.symm hk]
        · simp [hj]

theorem mem_insert [LT κ] [DecidableLT κ] {k : κ} {a : α} {l : List (κ × α)} {x : κ × α}
    (h : x ∈ insert k a l) : x = (k, a) ∨ x ∈ l := by
  induction l with
  | nil => exact .inl (List.mem_singleton.mp h)
  | cons b l ih =>
    obtain ⟨k', a'⟩ := b
    simp only [insert] at h
    split at h
    · exact List.mem_cons.mp h
    · split at h
      · exact (List.mem_cons.mp h).imp_right (.tail _)
      · rcases List.mem_cons.mp h with h | h
        · exact .inr (h ▸ .head _)
        · exact (ih h).imp_right (.tail _)

theorem insert_of_forall_lt [LT κ] [DecidableLT κ] [Std.Irrefl (α := κ) (· < ·)]
    [Trans (α := κ) (· < ·) (· < ·) (· < ·)] {k : κ} {a : α} {l : List (κ × α)} (h : ∀ x ∈ l, x.1 < k) :
    insert k a l = l ++ [(k, a)] := by
  induction l with
  | nil => rfl
  | cons b l ih =>
    obtain ⟨hb, hl⟩ := List.forall_mem_cons.mp h
    have hlt : ¬ k < b.1 := fun hk => Std.lt_irrefl (Std.lt_trans hb hk)
    have hne : k ≠ b.1 := fun he => Std.lt_irrefl (he ▸ hb)
    rw [insert, if_neg hlt, if_neg hne, ih hl, List.cons_append]

end Lookup

namespace Ascending
variable {κ α : Type} [LT κ] {l : List (κ × α)}

theorem erase [DecidableEq κ] (h : Ascending l) (k : κ) : Ascending (Sorted.erase k l) :=
  h.sublist (erase_sublist k l)

theorem insert [DecidableEq κ] [DecidableLT κ] [Trans (α := κ) (· < ·) (· < ·) (· < ·)]
    [Std.Trichotomous (α := κ) (· < ·)] (h : Ascending l) (k : κ) (a : α) :
    Ascending (Sorted.insert k a l) := by
  induction l with
  | nil => exact List.pairwise_singleton _ _
  | cons b l ih =>
    obtain ⟨k', a'⟩ := b
    obtain ⟨hb, hl⟩ := List.pairwise_cons.mp h
    simp only [Sorted.insert]
    split
    · rename_i hk
      refine List.pairwise_cons.mpr ⟨fun x hx => ?_, h⟩
      rcases List.mem_cons.mp hx with rfl | hx
      · exact hk
      · exact Std.lt_trans hk (hb x hx)
    · rename_i hk
      split
      · rename_i he
        exact List.pairwise_cons.mpr ⟨he ▸ hb, hl⟩
      · rename_i he
        refine List.pairwise_cons.mpr ⟨fun x hx => ?_, ih hl⟩
        rcases mem_insert hx with rfl | hx
        · exact ((Std.lt_trichotomy k k').resolve_left hk).resolve_left he
        · exact hb x hx

variable [Std.Irrefl (α := κ) (· < ·)]

/-- Entries that come in order are kept in order. -/
theorem foldl_insert [DecidableEq κ] [DecidableLT κ] [Trans (α := κ) (· < ·) (· < ·) (· < ·)]
    {done : List (κ × α)} (h : Ascending (done ++ l)) :
    l.foldl (fun kept x => Sorted.insert x.1 x.2 kept) done = done ++ l := by
  induction l generalizing done with
  | nil => exact (List.append_nil done).symm
  | cons x l ih =>
    have hlast : ∀ y ∈ done, y.1 < x.1 := fun y hy => (List.pairwise_append.mp h).2.2 y hy x (.head _)
    rw [List.append_cons] at h ⊢
    rw [List.foldl_cons, insert_of_forall_lt hlast]
    exact ih h

theorem not_mem_tail {k : κ} {a : α} (h : Ascending ((k, a) :: l)) : k ∉ l.map Prod.fst := by
  intro hk
  obtain ⟨b, hb, rfl⟩ := List.mem_map.mp hk
  exact Std.lt_irrefl ((List.pairwise_cons.mp h).1 b hb)

variable [DecidableEq κ]

theorem find?_erase (h : Ascending l) (j k : κ) :
    find? j (Sorted.erase k l) = if j = k then none else find? j l := by
  split
  · rename_i hj
    subst hj
    induction l with
    | nil => rfl
    | cons b l ih =>
      obtain ⟨k', a⟩ := b
      simp only [Sorted.erase]
      split
      · rename_i hk
        subst hk
        exact find?_eq_none_iff.mpr h.not_mem_tail
      · rename_i hk
        simp only [find?, hk, if_false]
        exact ih (List.pairwise_cons.mp h).2
  · rename_i hj
    exact find?_erase_of_ne hj l

/-- The entries of one key are what a look-up finds. -/
theorem filter_key (h : Ascending l) (k : κ) :
    l.filter (fun b => b.1 = k) = (find? k l).toList.map fun a => (k, a) := by
  induction l with
  | nil => rfl
  | cons b l ih =>
    obtain ⟨k', a⟩ := b
    have ht := ih (List.pairwise_cons.mp h).2
    by_cases hk : k = k'
    · subst hk
      have hn := find?_eq_none_iff.mpr h.not_mem_tail
      simp [find?, ht, hn]
    · simp [find?, hk, Ne.symm hk, ht]

omit [DecidableEq κ] in
theorem nodup_keys (h : Ascending l) : (l.map Prod.fst).Nodup := by
  rw [List.nodup_iff_pairwise_ne, List.pairwise_map]
  refine h.imp fun {a b} hab he => ?_
  rw [he] at hab
  exact Std.lt_irrefl hab

theorem find?_eq_some_iff (h : Ascending l) {k : κ} {a : α} : find? k l = some a ↔ (k, a) ∈ l :=
  find?_eq_some_iff_mem h.nodup_keys

omit [DecidableEq κ] in
theorem nodup (h : Ascending l) : l.Nodup :=
  List.nodup_iff_pairwise_ne.mpr <| h.imp fun {a b} hab he => by
    subst he
    exact Std.lt_irrefl hab

/-- Lists with the same look-ups are the same. -/
theorem ext [Trans (α := κ) (· < ·) (· < ·) (· < ·)] {l' : List (κ × α)} (h : Ascending l)
    (h' : Ascending l') (he : ∀ k, find? k l = find? k l') : l = l' := by
  have hp : l.Perm l' := (List.perm_ext_iff_of_nodup h.nodup h'.nodup).mpr fun (k, a) => by
    rw [← h.find?_eq_some_iff, he, h'.find?_eq_some_iff]
  exact hp.eq_of_pairwise (fun a b _ _ hab hba => absurd (Std.lt_trans hab hba) Std.lt_irrefl) h h'

theorem mem_erase_iff (h : Ascending l) {k : κ} {x : κ × α} :
    x ∈ Sorted.erase k l ↔ x ∈ l ∧ x.1 ≠ k := by
  obtain ⟨j, a⟩ := x
  rw [← (h.erase k).find?_eq_some_iff, ← h.find?_eq_some_iff, h.find?_erase]
  by_cases hj : j = k <;> simp [hj]

/-- Putting a value under a key leaves nothing else under it, and the rest as it is. -/
theorem erase_insert [DecidableLT κ] [Trans (α := κ) (· < ·) (· < ·) (· < ·)]
    [Std.Trichotomous (α := κ) (· < ·)] (h : Ascending l) (k : κ) (a : α) :
    Sorted.erase k (Sorted.insert k a l) = Sorted.erase k l := by
  refine ((h.insert k a).erase k).ext (h.erase k) fun j => ?_
  rw [(h.insert k a).find?_erase, h.find?_erase, find?_insert]
  split <;> rfl

theorem mem_insert_iff [DecidableLT κ] [Trans (α := κ) (· < ·) (· < ·) (· < ·)]
    [Std.Trichotomous (α := κ) (· < ·)] (h : Ascending l) {k : κ} {a : α} {x : κ × α} :
    x ∈ Sorted.insert k a l ↔ x = (k, a) ∨ x ∈ l ∧ x.1 ≠ k := by
  obtain ⟨j, b⟩ := x
  rw [← (h.insert k a).find?_eq_some_iff, ← h.find?_eq_some_iff, find?_insert]
  by_cases hj : j = k
  · simp [hj, eq_comm]
  · simp [hj]

end Ascending

section Commute
variable {κ α : Type} [LT κ] [DecidableLT κ] [DecidableEq κ] [Std.Irrefl (α := κ) (· < ·)]

/-- The later value under a key stands. -/
theorem insert_insert (k : κ) (a b : α) (l : List (κ × α)) : insert k a (insert k b l) = insert k a l := by
  have hk : ¬ k < k := Std.lt_irrefl
  induction l with
  | nil => simp [insert, hk]
  | cons x rest ih =>
    obtain ⟨j, c⟩ := x
    by_cases hlt : k < j
    · simp [insert, hlt, hk]
    · by_cases he : k = j
      · simp [insert, he, Std.lt_irrefl]
      · simp [insert, hlt, he, ih]

variable [Trans (α := κ) (· < ·) (· < ·) (· < ·)] [Std.Trichotomous (α := κ) (· < ·)]

private theorem insert_comm_of_lt {j k : κ} (h : j < k) (a b : α) (l : List (κ × α)) :
    insert j a (insert k b l) = insert k b (insert j a l) := by
  have hne : j ≠ k := fun he => Std.lt_irrefl (he ▸ h)
  have hnot : ∀ {x y : κ}, x < y → ¬ y < x := fun hxy hyx => Std.lt_irrefl (Std.lt_trans hxy hyx)
  induction l with
  | nil => simp [insert, h, hnot h, hne.symm]
  | cons x rest ih =>
    obtain ⟨i, c⟩ := x
    rcases Std.lt_trichotomy k i with hki | rfl | hik
    · have hji := Std.lt_trans h hki
      simp [insert, h, hki, hji, hnot h, hne.symm]
    · have hkk : ¬ k < k := Std.lt_irrefl
      simp [insert, h, hkk, hnot h, hne.symm]
    · have hk : ¬ k = i := fun he => Std.lt_irrefl (he ▸ hik)
      rcases Std.lt_trichotomy j i with hji | rfl | hij
      · simp [insert, hji, hnot hik, hk, hnot h, hne.symm]
      · have hjj : ¬ j < j := Std.lt_irrefl
        simp [insert, hjj, hnot h, hk]
      · have hj : ¬ j = i := fun he => Std.lt_irrefl (he ▸ hij)
        simp [insert, hnot hik, hk, hnot hij, hj, ih]

/-- Values under different keys may be put in any order. -/
theorem insert_comm {j k : κ} (h : j ≠ k) (a b : α) (l : List (κ × α)) :
    insert j a (insert k b l) = insert k b (insert j a l) := by
  rcases Std.lt_trichotomy j k with hlt | he | hlt
  · exact insert_comm_of_lt hlt a b l
  · exact absurd he h
  · exact (insert_comm_of_lt hlt b a l).symm

end Commute

end EventIntake.Sorted
