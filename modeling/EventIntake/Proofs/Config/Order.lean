import EventIntake.Config.Load
import EventIntake.Proofs.Config.Leaves
import Mathlib.Data.List.Induction

/-! Entries in other orders. What tables with each key once hold does not depend on it. -/
namespace EventIntake.Config
namespace Value

/-! ### Values in another order -/

/-- Where there is one entry at most, there is one order. -/
theorem Reordered.eq_of_nest {keys : List String} {v w : Value} (hv : v.entries = []) (h : (nest keys v).Reordered w) :
    w = nest keys v := by
  generalize hnest : nest keys v = u at h
  induction h generalizing keys with
  | refl u => rfl
  | trans h h' ih ih' =>
    have hfirst := ih hnest
    rw [ih' (hnest.trans hfirst.symm), hfirst]
  | perm hperm =>
    cases keys with
    | nil =>
      obtain rfl : v = table _ := hnest
      obtain rfl : _ = [] := hv
      rw [hperm.nil_eq]
    | cons key keys =>
      cases hnest
      rw [List.singleton_perm.mp hperm]
  | inside key rest h ih =>
    cases keys with
    | nil =>
      obtain rfl : v = table _ := hnest
      cases hv
    | cons key' keys =>
      cases hnest
      rw [ih rfl]

theorem Reordered.eq_of_entries_eq_nil {v w : Value} (hv : v.entries = []) (h : v.Reordered w) : w = v :=
  @Reordered.eq_of_nest [] v w hv h

/-- Entries that are no tables, or empty ones, can only change places. -/
theorem Reordered.exists_perm {es : List (String × Value)} {w : Value} (hes : ∀ e ∈ es, e.2.entries = [])
    (h : (table es).Reordered w) : ∃ es', w = table es' ∧ es'.Perm es := by
  generalize htable : table es = u at h
  induction h generalizing es with
  | refl u => exact ⟨es, htable.symm, .refl es⟩
  | trans h h' ih ih' =>
    obtain ⟨es', rfl, hperm⟩ := ih hes htable
    obtain ⟨es'', rfl, hperm'⟩ := ih' (fun e he => hes e (hperm.mem_iff.mp he)) rfl
    exact ⟨es'', rfl, hperm'.trans hperm⟩
  | perm hperm =>
    cases htable
    exact ⟨_, rfl, hperm.symm⟩
  | inside key rest h ih =>
    cases htable
    obtain rfl := h.eq_of_entries_eq_nil (hes _ (.head _))
    exact ⟨_, rfl, .refl _⟩

/-! ### What they hold -/

theorem rel_refl (v : Option Value) : Option.Rel Reordered v v := by
  cases v with
  | none => exact .none
  | some v => exact .some (.refl v)

theorem rel_trans {u v w : Option Value} (h : Option.Rel Reordered u v) (h' : Option.Rel Reordered v w) :
    Option.Rel Reordered u w := by
  cases h with
  | none => exact h'
  | some h =>
    cases h' with
    | some h' => exact .some (h.trans h')

/-- A table with each key once becomes another one with each key once, under which the value may be in another order. -/
theorem Reordered.rel_find? {es : List (String × Value)} {w : Value} (hnodup : (es.map Prod.fst).Nodup)
    (h : (table es).Reordered w) :
    ∃ es', w = table es' ∧ (es'.map Prod.fst).Nodup ∧
      ∀ key, Option.Rel Reordered (Sorted.find? key es) (Sorted.find? key es') := by
  generalize htable : table es = u at h
  induction h generalizing es with
  | refl u => exact ⟨es, htable.symm, hnodup, fun key => rel_refl _⟩
  | trans h h' ih ih' =>
    obtain ⟨es', rfl, hmiddle, hrel⟩ := ih hnodup htable
    obtain ⟨es'', rfl, hlast, hrel'⟩ := ih' hmiddle rfl
    exact ⟨es'', rfl, hlast, fun key => rel_trans (hrel key) (hrel' key)⟩
  | perm hperm =>
    cases htable
    refine ⟨_, rfl, (hperm.map Prod.fst).nodup_iff.mp hnodup, fun key => ?_⟩
    rw [Sorted.find?_perm hperm hnodup]
    exact rel_refl _
  | inside key rest h ih =>
    cases htable
    refine ⟨_, rfl, hnodup, fun key' => ?_⟩
    by_cases hkey : key' = key
    · simp only [Sorted.find?, if_pos hkey]
      exact .some h
    · simp only [Sorted.find?, if_neg hkey]
      exact rel_refl _

/-- Tables with each key once. -/
def Unique (v : Value) : Prop := ∀ keys es, v.at? keys = some (table es) → (es.map Prod.fst).Nodup

theorem Unique.below {es : List (String × Value)} (h : (table es).Unique) {key : String} {v : Value}
    (hv : Sorted.find? key es = some v) : v.Unique := by
  intro keys inner hinner
  apply h (key :: keys) inner
  rw [at?, entries, hv, Option.bind_some, hinner]

/-- The same keys lead to the same values in another order. -/
theorem Reordered.rel_at? {v w : Value} (h : v.Reordered w) (hv : v.Unique) (keys : List String) :
    Option.Rel Reordered (v.at? keys) (w.at? keys) := by
  induction keys generalizing v w with
  | nil => exact .some h
  | cons key keys ih =>
    cases v with
    | table es =>
      obtain ⟨es', rfl, -, hrel⟩ := h.rel_find? (hv [] es rfl)
      have hkey := hrel key
      rw [at?, at?, entries, entries]
      generalize hx : Sorted.find? key es = x, Sorted.find? key es' = y at hkey
      cases hkey with
      | none => exact .none
      | some hxy => exact ih hxy (hv.below hx)
    | _ =>
      rw [h.eq_of_entries_eq_nil rfl]
      exact rel_refl _

theorem Unique.reordered {v w : Value} (hv : v.Unique) (h : v.Reordered w) : w.Unique := by
  intro keys es' hes'
  have hkeys := h.rel_at? hv keys
  rw [hes'] at hkeys
  generalize hx : v.at? keys = x at hkeys
  cases hkeys with
  | @some x _ hxy =>
    cases x with
    | table es =>
      obtain ⟨_, ⟨⟩, hnodup, -⟩ := hxy.rel_find? (hv keys es hx)
      exact hnodup
    | _ => cases hxy.eq_of_entries_eq_nil rfl

theorem Flat.entries_eq_nil {v : Value} (h : v.Flat) : v.entries = [] := by
  cases v with
  | table es => exact h es rfl
  | _ => rfl

section Reordered
variable {v w : Value} (h : v.Documented) (hv : v.Unique) (hvw : v.Reordered w)
include h hv hvw

/-- No order of entries changes a leaf. -/
theorem Documented.at?_reordered (leaf : Leaf) : w.at? leaf.keys = v.at? leaf.keys := by
  have hkeys := hvw.rel_at? hv leaf.keys
  generalize hx : v.at? leaf.keys = x, w.at? leaf.keys = y at hkeys
  cases hkeys with
  | none => rfl
  | some hxy => rw [hxy.eq_of_entries_eq_nil (h.flat hx).entries_eq_nil]

theorem Documented.reordered : w.Documented := by
  intro keys y hy
  have hkeys := hvw.rel_at? hv keys
  rw [hy] at hkeys
  generalize hx : v.at? keys = x at hkeys
  cases hkeys with
  | @some x _ hxy =>
    rcases h keys x hx with ⟨hsection, es, rfl⟩ | ⟨⟨leaf, rfl⟩, hnull⟩
    · obtain ⟨es', rfl, -⟩ := hxy.rel_find? (hv keys es hx)
      exact .inl ⟨hsection, es', rfl⟩
    · rw [← h.at?_reordered hv hvw, hy] at hx
      cases hx
      exact .inr ⟨⟨leaf, rfl⟩, hnull⟩

end Reordered

end Value

/-! ### Variables -/

namespace Environment

theorem settings_concat (env : List (String × String)) (name v : String) :
    settings (env ++ [(name, v)]) =
      (key? name).elim (settings env) fun key => Sorted.insert key (guess v) (settings env) := by
  simp [settings]

theorem ascending_settings (env : List (String × String)) : Sorted.Ascending (settings env) := by
  induction env using List.reverseRecOn with
  | nil => exact List.Pairwise.nil
  | append_singleton env v ih =>
    rw [settings_concat]
    cases key? v.1 with
    | none => exact ih
    | some key => exact ih.insert key _

/-- Every setting comes of a variable. -/
theorem exists_of_mem_settings {env : List (String × String)} {e : String × Value} (h : e ∈ settings env) :
    ∃ v ∈ env, key? v.1 = some e.1 ∧ e.2 = guess v.2 := by
  induction env using List.reverseRecOn with
  | nil => cases h
  | append_singleton env v ih =>
    rw [settings_concat] at h
    have hearlier (he : e ∈ settings env) : ∃ v' ∈ env ++ [v], key? v'.1 = some e.1 ∧ e.2 = guess v'.2 := by
      obtain ⟨v', hv', hfound⟩ := ih he
      exact ⟨v', List.mem_append_left _ hv', hfound⟩
    cases hkey : key? v.1 with
    | none =>
      rw [hkey] at h
      exact hearlier h
    | some key =>
      rw [hkey] at h
      rcases Sorted.mem_insert h with rfl | he
      · exact ⟨v, by simp, hkey, rfl⟩
      · exact hearlier he

/-- Of the variables of one key the last stands, and the others change nothing about it. -/
theorem settings_variable {name key : String} (hname : key? name = some key) (v : String)
    (earlier : List (String × String)) {later : List (String × String)} (hlater : ∀ e ∈ later, key? e.1 ≠ some key) :
    settings (earlier ++ (name, v) :: later) = Sorted.insert key (guess v) (settings (earlier ++ later)) := by
  induction later using List.reverseRecOn with
  | nil => rw [settings_concat, hname, Option.elim_some, List.append_nil]
  | append_singleton later e ih =>
    obtain ⟨hrest, he⟩ := List.forall_mem_append.mp hlater
    rw [← List.cons_append, ← List.append_assoc, ← List.append_assoc, settings_concat, settings_concat, ih hrest]
    cases hkey : key? e.1 with
    | none => rfl
    | some key' =>
      have hne : key' ≠ key := fun h => he e (List.mem_singleton_self e) (h ▸ hkey)
      exact Sorted.insert_comm hne _ _ _

end Environment

/-! ### Sources -/

namespace Sources

theorem merges_foldl (root : Value) (layers : List (List (String × Value))) :
    Merges root layers (layers.foldl (fun root layer => Value.overlay layer root) root) := by
  induction layers generalizing root with
  | nil => exact .done root
  | cons layer rest ih => exact .next (.refl _) (ih _)

theorem merges_append_iff {root v : Value} {layers layers' : List (List (String × Value))} :
    Merges root (layers ++ layers') v ↔ ∃ u, Merges root layers u ∧ Merges u layers' v := by
  induction layers generalizing root with
  | nil =>
    refine ⟨fun h => ⟨root, .done root, h⟩, ?_⟩
    rintro ⟨u, ⟨⟩, h⟩
    exact h
  | cons layer rest ih =>
    constructor
    · rintro (_ | ⟨hlayer, h⟩)
      obtain ⟨u, hu, h⟩ := ih.mp h
      exact ⟨u, .next hlayer hu, h⟩
    · rintro ⟨u, _ | ⟨hlayer, hu⟩, h⟩
      exact .next hlayer (ih.mpr ⟨u, hu, h⟩)

theorem merges_singleton_iff {root v : Value} {layer : List (String × Value)} :
    Merges root [layer] v ↔ ∃ layer', (Value.table layer).Reordered (.table layer') ∧ v = Value.overlay layer' root := by
  constructor
  · rintro (_ | ⟨hlayer, ⟨⟩⟩)
    exact ⟨_, hlayer, rfl⟩
  · rintro ⟨layer', hlayer, rfl⟩
    exact .next hlayer (.done _)

/-- The order in which entries are listed is one of those that loading may take. -/
theorem loads_load (s : Sources) : s.Loads s.load := by
  rw [load, merged?]
  cases h : s.layers? with
  | none => exact .unreadable h
  | some layers => exact .merged h (merges_foldl _ layers)

/-- A variable that leads below another takes its place or gives way to it, by the order in which they come. -/
theorem loads_in_two_ways :
    ∃ s : Sources, s.env = [("SUIWATCH__STORAGE__SQLITE[0]", "x"), ("SUIWATCH__STORAGE__SQLITE__PATH", "v/db")] ∧
      s.Loads (.ok { storage := { sqlite := { path := "x" } } }) ∧
      s.Loads (.ok { storage := { sqlite := { path := "v/db" } } }) := by
  have hitem : Value.pathOf "storage.sqlite[0]" = .item (.child (.entry "storage") "sqlite") 0 := by decide
  have hbelow (root : Value) : Value.overlay [("storage.sqlite[0]", .text "x")] root =
      Value.update (Value.atItem 0 fun _ => .text "x") ["storage", "sqlite"] root := by
    rw [Value.overlay, List.foldl_cons, List.foldl_nil, hitem]
    rfl
  have hpath (root : Value) : Value.overlay [("storage.sqlite.path", .text "v/db")] root =
      Value.update (fun _ => .text "v/db") Leaf.sqlitePath.keys root :=
    Leaf.sqlitePath.set_dotted (by simp) root
  have hfirst : Value.overlay [("storage.sqlite.path", .text "v/db"), ("storage.sqlite[0]", .text "x")] (.table []) =
      .table [("storage", .table [("sqlite", .list [.text "x"])])] := by
    rw [← List.singleton_append, Value.overlay_append, hbelow, hpath]
    rfl
  have hlast : Value.overlay [("storage.sqlite[0]", .text "x"), ("storage.sqlite.path", .text "v/db")] (.table []) =
      .table [("storage", .table [("sqlite", .table [("path", .text "v/db")])])] := by
    rw [← List.singleton_append, Value.overlay_append, hbelow, hpath]
    rfl
  refine ⟨⟨none, none, none, _⟩, rfl, ?_, ?_⟩
  · exact .merged rfl (merges_singleton_iff.mpr ⟨_, .refl _, hfirst.symm⟩)
  · exact .merged rfl (merges_singleton_iff.mpr ⟨_, .perm (.swap _ _ _), hlast.symm⟩)

/-- Whatever order loading takes, it succeeds with settings of which `p` holds. That there is an outcome at all is
`loads_load`. -/
def LoadsTo (s : Sources) (p : Settings → Prop) : Prop := ∀ r, s.Loads r → ∃ c, r = .ok c ∧ p c

theorem LoadsTo.load {s : Sources} {p : Settings → Prop} (h : s.LoadsTo p) : ∃ c, s.load = .ok c ∧ p c :=
  h _ s.loads_load

end Sources

end EventIntake.Config
