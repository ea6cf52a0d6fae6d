import EventIntake.Config.Value
import EventIntake.Proofs.Sorted

/-! What merged settings hold at a path of keys. -/
namespace EventIntake.Config.Value

/-- The value below the given keys. -/
def at? : List String → Value → Option Value
  | [], v => some v
  | key :: keys, v => (Sorted.find? key v.entries).bind (at? keys)

/-- What becomes of a present value when another comes over it. A table is merged, anything else replaces. -/
def merge (present : Option Value) : Value → Value
  | table incoming => mergeInto (present.getD (table [])) incoming
  | v => v

/-- Tables with each key once, and in lower case. -/
def Plain (v : Value) : Prop :=
  ∀ keys es, v.at? keys = some (table es) → (es.map Prod.fst).Nodup ∧ ∀ e ∈ es, lowerKey e.1 = e.1

theorem Plain.below {es : List (String × Value)} (h : (table es).Plain) {key : String} {v : Value}
    (hv : Sorted.find? key es = some v) : v.Plain := by
  intro keys inner hinner
  refine h (key :: keys) inner ?_
  rw [at?, entries, hv, Option.bind_some, hinner]

/-! ### Entries -/

theorem setEntry_eq {key : String} (hkey : lowerKey key = key) (present : List (String × Value)) (v : Value) :
    setEntry key present v = Sorted.insert key (merge (Sorted.find? key present) v) present := by
  cases v <;> simp only [setEntry, merge, hkey]

theorem find?_setEntry {key : String} (hkey : lowerKey key = key) (present : List (String × Value)) (v : Value)
    (j : String) :
    Sorted.find? j (setEntry key present v) =
      if j = key then some (merge (Sorted.find? key present) v) else Sorted.find? j present := by
  rw [setEntry_eq hkey, Sorted.find?_insert]

/-- Each entry that comes is merged into the present one of its key, and all others stay. -/
theorem find?_mergeInto {es : List (String × Value)} (hnodup : (es.map Prod.fst).Nodup)
    (hlower : ∀ e ∈ es, lowerKey e.1 = e.1) (target : Value) (key : String) :
    Sorted.find? key (mergeInto target es).entries =
      match Sorted.find? key es with
      | some v => some (merge (Sorted.find? key target.entries) v)
      | none => Sorted.find? key target.entries := by
  induction es generalizing target with
  | nil => rfl
  | cons e rest ih =>
    obtain ⟨k, v⟩ := e
    obtain ⟨hk, hrest⟩ := List.nodup_cons.mp hnodup
    obtain ⟨hkey, hkeys⟩ := List.forall_mem_cons.mp hlower
    rw [mergeInto, ih hrest hkeys]
    simp only [entries, find?_setEntry hkey, Sorted.find?]
    by_cases hj : key = k
    · subst hj
      simp [Sorted.find?_eq_none_iff.mpr hk]
    · simp [hj]

theorem isTable_mergeInto {target : Value} (h : ∃ es, target = table es) (es : List (String × Value)) :
    ∃ es', mergeInto target es = table es' := by
  induction es generalizing target with
  | nil => exact h
  | cons e rest ih => exact ih ⟨_, rfl⟩

/-! ### Paths -/

/-- Below keys of which the proper beginnings lead to tables, a value that comes is merged into the present one. -/
theorem at?_merge {keys : List String} {new : Value} (hnew : new.Plain)
    (hbegin : ∀ front rest, keys = front ++ rest → rest ≠ [] → ∀ w, new.at? front = some w → ∃ es, w = table es)
    (present : Option Value) :
    (merge present new).at? keys =
      match new.at? keys with
      | some w => some (merge (present.bind (at? keys)) w)
      | none => present.bind (at? keys) := by
  induction keys generalizing new present with
  | nil => cases present <;> rfl
  | cons key keys ih =>
    obtain ⟨es, rfl⟩ := hbegin [] (key :: keys) rfl (List.cons_ne_nil _ _) new rfl
    obtain ⟨hnodup, hlower⟩ := hnew [] es rfl
    have hpresent : present.bind (at? (key :: keys)) =
        (Sorted.find? key (present.getD (table [])).entries).bind (at? keys) := by
      cases present <;> rfl
    rw [hpresent, merge, at?, at?, find?_mergeInto hnodup hlower, entries]
    cases hv : Sorted.find? key es with
    | none => rfl
    | some v =>
      refine ih (hnew.below hv) (fun front rest hsplit hne w hw => ?_) _
      refine hbegin (key :: front) rest (by rw [hsplit, List.cons_append]) hne w ?_
      rw [at?, entries, hv, Option.bind_some, hw]

theorem overlay_append (earlier later : List (String × Value)) (root : Value) :
    overlay (earlier ++ later) root = overlay later (overlay earlier root) := List.foldl_append

theorem overlay_eq_mergeInto {source : List (String × Value)} (h : ∀ e ∈ source, pathOf e.1 = .entry e.1)
    (root : Value) :
    overlay source root = mergeInto root source := by
  induction source generalizing root with
  | nil => rfl
  | cons e rest ih =>
    obtain ⟨hpath, hrest⟩ := List.forall_mem_cons.mp h
    rw [overlay, List.foldl_cons, hpath, ← overlay, ih hrest, mergeInto]
    rfl

/-! ### A value put below some keys -/

/-- Tables within tables down to a value. -/
def nest : List String → Value → Value
  | [], v => v
  | key :: keys, v => table [(key, nest keys v)]

theorem entries_eq_nil {v : Value} (h : ∀ es, v ≠ table es) : v.entries = [] := by
  cases v with
  | table es => exact absurd rfl (h es)
  | _ => rfl

/-- What leads to something in tables down to a value leads to a table or to the value. -/
theorem at?_nest {keys front : List String} {v w : Value} (hv : v.entries = []) (h : (nest keys v).at? front = some w) :
    ∃ rest, keys = front ++ rest ∧ w = nest rest v := by
  induction front generalizing keys with
  | nil =>
    cases h
    exact ⟨keys, rfl, rfl⟩
  | cons k front ih =>
    obtain ⟨x, hx, h⟩ := Option.bind_eq_some_iff.mp h
    cases keys with
    | nil => simp [nest, hv, Sorted.find?] at hx
    | cons key keys =>
      by_cases hk : k = key
      · simp only [nest, entries, Sorted.find?, if_pos hk, Option.some.injEq] at hx
        subst hx
        obtain ⟨rest, rfl, rfl⟩ := ih h
        exact ⟨rest, by rw [hk, List.cons_append], rfl⟩
      · simp [nest, entries, Sorted.find?, hk] at hx

theorem at?_nest_self (keys : List String) (v : Value) : (nest keys v).at? keys = some v := by
  induction keys with
  | nil => rfl
  | cons key keys ih => simp [nest, at?, entries, Sorted.find?, ih]

/-- Changes the value below some keys. What stands in the way of a table is left out. -/
def update (f : Value → Value) : List String → Value → Value
  | [], v => f v
  | key :: keys, v => table (Sorted.insert key (update f keys ((Sorted.find? key v.entries).getD null)) v.entries)

theorem update_append (f : Value → Value) (front keys : List String) (v : Value) :
    update f (front ++ keys) v = update (update f keys) front v := by
  induction front generalizing v with
  | nil => rfl
  | cons k front ih => simp only [List.cons_append, update, ih]

/-- Two lists of keys of which neither begins with the other. -/
def Apart : List String → List String → Prop
  | k :: ks, l :: ls => k ≠ l ∨ Apart ks ls
  | _, _ => False

instance decidableApart : (ks ls : List String) → Decidable (Apart ks ls)
  | k :: ks, l :: ls => @instDecidableOr (k ≠ l) (Apart ks ls) _ (decidableApart ks ls)
  | [], _ => .isFalse id
  | _ :: _, [] => .isFalse id

/-- Whether a path leads through a list. -/
def Path.indexed : Path → Bool
  | entry _ => false
  | child p _ => p.indexed
  | item _ _ => true

/-- The keys that a path follows before its first index. -/
def Path.lead : Path → List String
  | entry key => [lowerKey key]
  | child p key => if p.indexed then p.lead else p.lead ++ [lowerKey key]
  | item p _ => p.lead

/-- A change at a path is one below its keys, and the same one unless the path goes on through a list. -/
theorem exists_modify_eq_update (f : Value → Value) (p : Path) :
    ∃ g, modify f p = update g p.lead ∧ (p.indexed = false → g = f) := by
  induction p generalizing f with
  | entry key => exact ⟨f, rfl, fun _ => rfl⟩
  | child p key ih =>
    obtain ⟨g, hg, hsame⟩ := ih (update f [lowerKey key])
    have hchild : modify f (.child p key) = modify (update f [lowerKey key]) p := rfl
    cases hp : p.indexed with
    | true => exact ⟨g, by rw [hchild, hg, Path.lead, if_pos hp], fun h => by simp [Path.indexed, hp] at h⟩
    | false =>
      refine ⟨f, ?_, fun _ => rfl⟩
      funext v
      rw [hchild, hg, hsame hp, Path.lead, hp, if_neg Bool.false_ne_true, update_append]
  | item p index ih =>
    obtain ⟨g, hg, -⟩ := ih (atItem index f)
    exact ⟨g, hg, fun h => Bool.noConfusion h⟩

/-- A value that is no table is put in place of what its path leads to. -/
theorem set_eq_modify {new : Value} (hnew : ∀ es, new ≠ table es) (p : Path) : set p new = modify (fun _ => new) p := by
  have hentry (key : String) (present : List (String × Value)) :
      setEntry key present new = Sorted.insert (lowerKey key) new present := by
    rw [setEntry]
    exact hnew
  funext v
  cases p <;> simp only [set, modify, hentry]

theorem update_comm {ks ls : List String} (h : Apart ks ls) (f g : Value → Value) (root : Value) :
    update f ks (update g ls root) = update g ls (update f ks root) := by
  induction ks generalizing ls root with
  | nil => cases h
  | cons k ks ih =>
    cases ls with
    | nil => cases h
    | cons l ls =>
      by_cases hkl : k = l
      · subst hkl
        have hapart : Apart ks ls := h.resolve_left (not_not_intro rfl)
        simp [update, entries, Sorted.find?_insert, Sorted.insert_insert, ih hapart]
      · simp [update, entries, Sorted.find?_insert, hkl, Ne.symm hkl, Sorted.insert_comm hkl]

/-- Of two values put below the same keys the later one stays. -/
theorem update_update (keys : List String) (f g : Value → Value) (v : Value) :
    update f keys (update g keys v) = update (f ∘ g) keys v := by
  induction keys generalizing v with
  | nil => rfl
  | cons key keys ih => simp [update, entries, Sorted.find?_insert, Sorted.insert_insert, ih]

/-- Settings that all lead elsewhere come over a change without touching it. -/
theorem overlay_update {keys : List String} {settings : List (String × Value)}
    (h : ∀ e ∈ settings, (∀ es, e.2 ≠ table es) ∧ Apart (pathOf e.1).lead keys) (f : Value → Value) (root : Value) :
    overlay settings (update f keys root) = update f keys (overlay settings root) := by
  induction settings generalizing root with
  | nil => rfl
  | cons e rest ih =>
    obtain ⟨⟨htable, hapart⟩, hrest⟩ := List.forall_mem_cons.mp h
    obtain ⟨g, hg, -⟩ := exists_modify_eq_update (fun _ => e.2) (pathOf e.1)
    have hset (v : Value) : set (pathOf e.1) e.2 v = update g (pathOf e.1).lead v := by rw [set_eq_modify htable, hg]
    rw [overlay, overlay, List.foldl_cons, List.foldl_cons, hset, hset, update_comm hapart, ← overlay, ← overlay,
      ih hrest]

/-- Putting a value below some keys is merging the tables down to it. -/
theorem merge_nest {keys : List String} (hlower : ∀ k ∈ keys, lowerKey k = k) {new : Value}
    (hnew : ∀ es, new ≠ table es) (present : Option Value) :
    merge present (nest keys new) = update (fun _ => new) keys (present.getD null) := by
  induction keys generalizing present with
  | nil =>
    cases new with
    | table es => exact absurd rfl (hnew es)
    | _ => rfl
  | cons k keys ih =>
    obtain ⟨hk, hkeys⟩ := List.forall_mem_cons.mp hlower
    have hentries : (present.getD (table [])).entries = (present.getD null).entries := by cases present <;> rfl
    rw [nest, merge, mergeInto, mergeInto, hentries, setEntry_eq hk, update, ih hkeys]

end EventIntake.Config.Value
