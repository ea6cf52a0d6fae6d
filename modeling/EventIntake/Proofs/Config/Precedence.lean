import EventIntake.Proofs.Config.Order
import EventIntake.Proofs.Config.Yaml.Lines
import EventIntake.Proofs.Config.Yaml.Mapping

/-! Of several sources the last that sets a leaf decides it, whatever they say about other leaves. -/
namespace EventIntake.Config
open Value

/-! ### Values over one another -/

/-- What stands after values came over a present one, in their order. -/
def layered (present : Option Value) (values : List Value) : Option Value :=
  values.foldl (fun p v => some (merge p v)) present

def isEmptyTable : Value → Bool
  | table [] => true
  | _ => false

/-- The last value that is no empty table, or else the last one. -/
def decisive (values : List Value) : Option Value :=
  (values.filter fun v => !isEmptyTable v).getLast?.or values.getLast?

theorem isEmptyTable_iff {v : Value} : isEmptyTable v = true ↔ v = table [] := by
  cases v with
  | table es => cases es <;> simp [isEmptyTable]
  | _ => simp [isEmptyTable]

theorem decisive_concat {values : List Value} {v : Value} (h : isEmptyTable v = false) :
    decisive (values ++ [v]) = some v := by
  simp [decisive, List.filter_append, h]

/-- An empty table comes to nothing, or stands if there is nothing but empty tables. -/
theorem decisive_concat_empty (values : List Value) :
    decisive (values ++ [table []]) = some ((decisive values).getD (table [])) := by
  have hempty : isEmptyTable (table []) = true := rfl
  have hfilter : (values ++ [table []]).filter (fun v => !isEmptyTable v) = values.filter fun v => !isEmptyTable v := by
    simp [List.filter_append, hempty]
  rw [decisive, hfilter, List.getLast?_concat, decisive]
  cases hlast : (values.filter fun v => !isEmptyTable v).getLast? with
  | some w => rfl
  | none =>
    have hall : ∀ v ∈ values, v = table [] := by
      rw [List.getLast?_eq_none_iff, List.filter_eq_nil_iff] at hlast
      exact fun v hv => isEmptyTable_iff.mp (by simpa using hlast v hv)
    cases hv : values.getLast? with
    | none => rfl
    | some v => rw [hall v (List.mem_of_getLast? hv)]; rfl

theorem layered_none_eq_decisive {values : List Value} (h : ∀ v ∈ values, v.Flat) :
    layered none values = decisive values := by
  induction values using List.reverseRecOn with
  | nil => rfl
  | append_singleton values v ih =>
    rw [List.forall_mem_append, List.forall_mem_singleton] at h
    have hconcat : layered none (values ++ [v]) = some (merge (layered none values) v) := by
      rw [layered, List.foldl_append]
      rfl
    rw [hconcat, ih h.1]
    cases v with
    | table es =>
      obtain rfl := h.2 es rfl
      rw [decisive_concat_empty]
      rfl
    | _ => exact (decisive_concat rfl).symm

/-! ### One source over the settings so far -/

/-- Settings that come of others when a source gives some values for each leaf. -/
structure Takes (root root' : Value) (given : Leaf → List Value) : Prop where
  sectioned : root.Sectioned → root'.Sectioned
  leaf : ∀ leaf : Leaf, root'.at? leaf.keys = layered (root.at? leaf.keys) (given leaf)

namespace Takes
variable {a b c : Value} {given later : Leaf → List Value}

theorem refl : Takes a a fun _ => [] := ⟨id, fun _ => rfl⟩

theorem trans (h : Takes a b given) (h' : Takes b c later) : Takes a c fun leaf => given leaf ++ later leaf :=
  ⟨h'.sectioned ∘ h.sectioned, fun leaf => by rw [h'.leaf, h.leaf, layered, layered, ← List.foldl_append]; rfl⟩

theorem merge {root new : Value} (hnew : new.Documented) (hplain : new.Plain) :
    Takes root (Value.merge (some root) new) fun leaf => (new.at? leaf.keys).toList := by
  refine ⟨fun hroot => hroot.merge hnew hplain, fun leaf => ?_⟩
  rw [at?_merge hplain (hnew.begins leaf.keys_mem_places)]
  cases new.at? leaf.keys <;> rfl

end Takes

/-! ### The sources of a program -/

/-- A variable never sets a table, and never null. -/
theorem Environment.guess_ne (s : String) : (∀ es, guess s ≠ table es) ∧ guess s ≠ null := by
  simp only [guess]
  split_ifs
  · simp
  · simp
  · split
    · simp
    · split <;> simp

theorem Environment.ne_table_of_mem {env : List (String × String)} {e : String × Value} (h : e ∈ settings env) :
    ∀ es, e.2 ≠ table es := by
  obtain ⟨v, -, -, hvalue⟩ := exists_of_mem_settings h
  rw [hvalue]
  exact (guess_ne v.2).1

theorem Leaf.exists_keys (leaf : Leaf) : ∃ key keys, leaf.keys = key :: keys := by
  cases leaf <;> exact ⟨_, _, rfl⟩

theorem Leaf.isWord_keys (leaf : Leaf) : ∀ k ∈ leaf.keys, Yaml.IsWord k := by
  cases leaf <;> simp only [Leaf.keys, List.forall_mem_cons] <;> decide

namespace Sources

/-- The value that a file gives for a leaf. -/
def offered? (leaf : Leaf) (f : Source) : Option Value := (entries? f).bind fun es => (table es).at? leaf.keys

/-- The values that the sources give for a leaf, from the weakest to the strongest. -/
def offered (s : Sources) (leaf : Leaf) : List Value :=
  s.files.filterMap (offered? leaf) ++
    (Environment.settings s.env).filterMap fun e => if e.1 = leaf.dotted then some e.2 else none

/-- Sources that use only the keys of the program. Every file can be read, its sections are tables, and no leaf in it is
null. -/
structure Documented (s : Sources) : Prop where
  files : ∀ f ∈ s.files, ∃ es, entries? f = some es ∧ (table es).Documented
  env : ∀ e ∈ s.env, ∀ key ∈ Environment.key? e.1, ∃ leaf : Leaf, key = leaf.dotted

theorem takes_entries {es : List (String × Value)} (h : (table es).Documented) (hunique : (table es).Unique)
    (root : Value) : Takes root (overlay es root) fun leaf => ((table es).at? leaf.keys).toList := by
  have hpaths : ∀ e ∈ es, pathOf e.1 = .entry e.1 := by
    intro e he
    have hroot : (table es).at? [] = some (table es) := rfl
    obtain ⟨w, hw⟩ := exists_at?_of_mem hroot he
    have hplace : [e.1] ∈ Leaf.places := h.mem_places hw
    have hkey : e.1 = "ingest" ∨ e.1 = "storage" := by
      simpa [Leaf.places, Leaf.sections, Leaf.all, Leaf.keys] using hplace
    rcases hkey with hkey | hkey <;> rw [hkey] <;> decide
  rw [overlay_eq_mergeInto hpaths]
  exact .merge h (h.plain hunique)

theorem unique_entries? {f : Source} {es : List (String × Value)} (h : entries? f = some es) : (table es).Unique := by
  cases f with
  | missing => cases h
  | text s => exact fun keys inner hinner => Yaml.nodup_settings? h hinner

/-- A file gives the same values in every order of its entries. -/
theorem takes_file {f : Source} {es es' : List (String × Value)} (hread : entries? f = some es)
    (h : (table es).Documented) (horder : (table es).Reordered (table es')) (root : Value) :
    Takes root (overlay es' root) fun leaf => (offered? leaf f).toList := by
  have hunique : (table es).Unique := unique_entries? hread
  have hoffered (leaf : Leaf) : offered? leaf f = (table es').at? leaf.keys := by
    rw [offered?, hread, Option.bind_some, h.at?_reordered hunique horder]
  simpa only [hoffered] using takes_entries (h.reordered hunique horder) (hunique.reordered horder) root

theorem takes_files {files : List Source} (h : ∀ f ∈ files, ∃ es, entries? f = some es ∧ (table es).Documented) :
    ∃ layers, files.mapM entries? = some layers ∧
      ∀ root v, Merges root layers v → Takes root v fun leaf => files.filterMap (offered? leaf) := by
  induction files with
  | nil =>
    refine ⟨[], rfl, ?_⟩
    rintro root v ⟨⟩
    exact .refl
  | cons f rest ih =>
    obtain ⟨⟨es, hread, hes⟩, hrest⟩ := List.forall_mem_cons.mp h
    obtain ⟨layers, hlayers, htakes⟩ := ih hrest
    refine ⟨es :: layers, by simp [List.mapM_cons, hread, hlayers], ?_⟩
    rintro root v (_ | ⟨horder, hmerges⟩)
    have hcons := (takes_file hread hes horder root).trans (htakes _ v hmerges)
    refine ⟨hcons.sectioned, fun leaf => (hcons.leaf leaf).trans ?_⟩
    cases hg : offered? leaf f <;> simp [hg]

theorem takes_variables {settings : List (String × Value)}
    (h : ∀ e ∈ settings, (∃ leaf : Leaf, e.1 = leaf.dotted) ∧ (∀ es, e.2 ≠ table es) ∧ e.2 ≠ null) (root : Value) :
    Takes root (overlay settings root) fun leaf =>
      settings.filterMap fun e => if e.1 = leaf.dotted then some e.2 else none := by
  induction settings generalizing root with
  | nil => exact .refl
  | cons e rest ih =>
    obtain ⟨⟨⟨leaf, hkey⟩, htable, hnull⟩, hrest⟩ := List.forall_mem_cons.mp h
    have hlower : ∀ k ∈ leaf.keys, lowerKey k = k := Leaf.lowerKey_places _ leaf.keys_mem_places
    have hset : set (pathOf e.1) e.2 root = merge (some root) (nest leaf.keys e.2) := by
      rw [hkey, leaf.set_dotted htable, merge_nest hlower htable, Option.getD_some]
    have hempty : e.2.entries = [] := entries_eq_nil htable
    have hmerge : Takes root (merge (some root) (nest leaf.keys e.2)) fun leaf' =>
        ((nest leaf.keys e.2).at? leaf'.keys).toList :=
      .merge (documented_nest hempty hnull leaf) (plain_nest hempty hnull leaf)
    have hcons := hmerge.trans (ih hrest _)
    rw [overlay, List.foldl_cons, hset]
    refine ⟨hcons.sectioned, fun leaf' => (hcons.leaf leaf').trans ?_⟩
    rw [at?_nest_leaf hempty, List.filterMap_cons, hkey]
    by_cases he : leaf' = leaf
    · simp [he]
    · have hne : leaf.dotted ≠ leaf'.dotted := fun hd => he (Leaf.dotted_injective hd).symm
      simp [he, hne]

/-- The environment gives the same values in every order of its variables. -/
theorem takes_environment {env : List (String × String)}
    (h : ∀ e ∈ Environment.settings env, (∃ leaf : Leaf, e.1 = leaf.dotted) ∧ (∀ es, e.2 ≠ table es) ∧ e.2 ≠ null)
    {root v : Value} (hmerges : Merges root [Environment.settings env] v) :
    Takes root v fun leaf =>
      (Environment.settings env).filterMap fun e => if e.1 = leaf.dotted then some e.2 else none := by
  obtain ⟨settings, horder, rfl⟩ := merges_singleton_iff.mp hmerges
  obtain ⟨_, ⟨⟩, hperm⟩ := horder.exists_perm fun e he => entries_eq_nil (h e he).2.1
  have hnodup := (Environment.ascending_settings env).nodup_keys
  have hnodup' : (settings.map Prod.fst).Nodup := (hperm.map Prod.fst).nodup_iff.mpr hnodup
  have htakes := takes_variables (fun e he => h e (hperm.mem_iff.mp he)) root
  simpa only [Sorted.filterMap_key hnodup, Sorted.filterMap_key hnodup', Sorted.find?_perm hperm hnodup'] using htakes

theorem Documented.merged {s : Sources} (h : s.Documented) :
    ∃ layers, s.layers? = some layers ∧ ∀ v, Merges (table []) layers v →
      v.Sectioned ∧ ∀ leaf : Leaf, v.at? leaf.keys = decisive (s.offered leaf) := by
  obtain ⟨layers, hlayers, htakes⟩ := takes_files h.files
  have hsettings : ∀ e ∈ Environment.settings s.env,
      (∃ leaf : Leaf, e.1 = leaf.dotted) ∧ (∀ es, e.2 ≠ table es) ∧ e.2 ≠ null := by
    intro e he
    obtain ⟨v, hv, hfound, hvalue⟩ := Environment.exists_of_mem_settings he
    exact ⟨h.env v hv e.1 hfound, hvalue ▸ Environment.guess_ne v.2⟩
  have hempty : (table []).Sectioned := by
    intro keys hkeys w hw
    cases keys with
    | nil => exact ⟨[], (Option.some.inj hw).symm⟩
    | cons key keys => cases hw
  have hnone (leaf : Leaf) : (table []).at? leaf.keys = none := by cases leaf <;> rfl
  have hflat (leaf : Leaf) : ∀ v ∈ s.offered leaf, v.Flat := by
    refine List.forall_mem_append.mpr ⟨fun v hv => ?_, fun v hv => ?_⟩
    · obtain ⟨f, hf, hv⟩ := List.mem_filterMap.mp hv
      obtain ⟨es, hread, hes⟩ := h.files f hf
      rw [offered?, hread, Option.bind_some] at hv
      exact hes.flat hv
    · obtain ⟨e, he, hv⟩ := List.mem_filterMap.mp hv
      split at hv
      · cases hv
        exact fun es hes => absurd hes ((hsettings e he).2.1 es)
      · cases hv
  refine ⟨layers ++ [Environment.settings s.env], by simp [layers?, hlayers], fun v hmerges => ?_⟩
  obtain ⟨u, hu, hv⟩ := merges_append_iff.mp hmerges
  have hall := (htakes _ u hu).trans (takes_environment hsettings hv)
  refine ⟨hall.sectioned hempty, fun leaf => ?_⟩
  rw [hall.leaf, hnone, ← layered_none_eq_decisive (hflat leaf)]
  rfl

/-- The outcome of loading if leaves are given as they are. -/
def loadLeaves (given : Leaf → Option Value) : Except LoadError Settings :=
  match Settings.ofLeaves? given with
  | none => .error .unreadable
  | some settings => settings.validate.mapError .invalidThreshold

theorem Documented.eq_of_loads {s : Sources} (h : s.Documented) {r : Except LoadError Settings} (hr : s.Loads r) :
    r = loadLeaves fun leaf => decisive (s.offered leaf) := by
  obtain ⟨layers, hlayers, hmerged⟩ := h.merged
  cases hr with
  | unreadable hnone => cases hlayers.symm.trans hnone
  | merged hsome hmerges =>
    cases hlayers.symm.trans hsome
    obtain ⟨hsectioned, hleaf⟩ := hmerged _ hmerges
    rw [settle, Option.bind_some, Settings.ofValue?_eq hsectioned, funext hleaf]
    rfl

theorem Documented.load_eq {s : Sources} (h : s.Documented) :
    s.load = loadLeaves fun leaf => decisive (s.offered leaf) := h.eq_of_loads s.loads_load

/-- No order of entries changes what sources give that use only the keys of the program. -/
theorem Documented.loads_iff {s : Sources} (h : s.Documented) {r : Except LoadError Settings} :
    s.Loads r ↔ r = s.load := by
  constructor
  · intro hr
    rw [h.eq_of_loads hr, h.load_eq]
  · rintro rfl
    exact s.loads_load

/-! ### A file that sets one leaf -/

theorem entries?_setting (leaf : Leaf) {scalar : List Char} {v : Value} (h : Yaml.Spells scalar (some v)) :
    ∃ es, entries? (.text (Yaml.setting leaf.keys scalar)) = some es ∧ table es = nest leaf.keys v := by
  obtain ⟨key, keys, hkeys⟩ := leaf.exists_keys
  have hwords := leaf.isWord_keys
  rw [hkeys] at hwords ⊢
  exact ⟨_, Yaml.settings?_setting hwords h, rfl⟩

theorem entries?_setting_eq_none (leaf : Leaf) {scalar : List Char} (h : Yaml.Spells scalar none) :
    entries? (.text (Yaml.setting leaf.keys scalar)) = none := by
  obtain ⟨key, keys, hkeys⟩ := leaf.exists_keys
  have hwords := leaf.isWord_keys
  rw [hkeys] at hwords ⊢
  exact Yaml.settings?_setting hwords h

section Setting
variable (leaf : Leaf) {scalar : List Char} {v : Value} (h : Yaml.Spells scalar (some v)) (hempty : v.entries = [])
include h hempty

theorem documented_setting (hnull : v ≠ null) :
    ∃ es, entries? (.text (Yaml.setting leaf.keys scalar)) = some es ∧ (table es).Documented := by
  obtain ⟨es, hread, hes⟩ := entries?_setting leaf h
  exact ⟨es, hread, hes ▸ documented_nest hempty hnull leaf⟩

theorem offered?_setting (leaf' : Leaf) :
    offered? leaf' (.text (Yaml.setting leaf.keys scalar)) = if leaf' = leaf then some v else none := by
  obtain ⟨es, hread, hes⟩ := entries?_setting leaf h
  rw [offered?, hread, Option.bind_some, hes, at?_nest_leaf hempty]

end Setting

theorem offered_variable {s : Sources} {name v : String} (henv : s.env = [(name, v)]) {leaf : Leaf}
    (hname : Environment.key? name = some leaf.dotted) (leaf' : Leaf) :
    s.offered leaf' = s.files.filterMap (offered? leaf') ++ if leaf' = leaf then [Environment.guess v] else [] := by
  rw [offered, henv]
  by_cases hleaf : leaf' = leaf
  · simp [Environment.settings, Sorted.insert, hname, hleaf]
  · have hne : leaf.dotted ≠ leaf'.dotted := fun hd => hleaf (Leaf.dotted_injective hd).symm
    simp [Environment.settings, Sorted.insert, hname, hleaf, hne]

/-! ### Precedence -/

theorem mapM_entries?_eq_none {files : List Source} (h : ∃ f ∈ files, entries? f = none) :
    files.mapM entries? = none := by
  induction files with
  | nil => simp at h
  | cons f rest ih =>
    rw [List.mapM_cons]
    obtain ⟨g, hg, hnone⟩ := h
    rcases List.mem_cons.mp hg with rfl | hrest
    · simp [hnone]
    · simp [ih ⟨g, hrest, hnone⟩]

theorem load_of_unreadable {s : Sources} (h : ∃ f ∈ s.files, entries? f = none) : s.load = .error .unreadable := by
  have hlayers : s.files.mapM entries? = none := mapM_entries?_eq_none h
  simp [load, merged?, layers?, hlayers, settle]

/-- For each leaf only the last value counts that is no empty table, or an empty table if there is nothing else; it is
read by itself, and its default stands if no source gives a value. A file that cannot be read fails the whole. -/
theorem load_by_leaves :
    (∀ s : Sources, s.Documented → s.load = loadLeaves fun leaf => decisive (s.offered leaf)) ∧
      (∀ s t : Sources, s.Documented → t.Documented →
        (∀ leaf, decisive (s.offered leaf) = decisive (t.offered leaf)) → s.load = t.load) ∧
      ∀ s : Sources, (∃ f ∈ s.files, entries? f = none) → s.load = .error .unreadable := by
  refine ⟨fun s h => h.load_eq, fun s t hs ht hsame => ?_, fun s h => load_of_unreadable h⟩
  rw [hs.load_eq, ht.load_eq, funext hsame]

/-- An overridden value has no effect, though no threshold is a table. -/
theorem load_by_leaves_overridden :
    (∃ s t : Sources, s = ⟨none, some (.text "ingest:\n  flush_threshold: \x7b\x7d\n"), none,
        [("SUIWATCH__INGEST__FLUSH_THRESHOLD", "7")]⟩ ∧
      t = ⟨none, none, none, [("suiwatch__ingest__flush_threshold", "7")]⟩ ∧ s.Documented ∧ t.Documented ∧
      s.load = t.load ∧ s.load = .ok { ingest := { flushThreshold := 7 } }) ∧
    (⟨none, some .missing, none, []⟩ : Sources).load = .error .unreadable := by
  have hspelled : Yaml.setting Leaf.flushThreshold.keys ['{', '}'] = "ingest:\n  flush_threshold: \x7b\x7d\n" := by
    decide
  have hfile (leaf : Leaf) := offered?_setting .flushThreshold Yaml.spells_empty rfl leaf
  have hread := documented_setting .flushThreshold Yaml.spells_empty rfl (by simp)
  rw [← hspelled]
  generalize Source.text (Yaml.setting Leaf.flushThreshold.keys ['{', '}']) = file at hfile hread ⊢
  have hname : Environment.key? "SUIWATCH__INGEST__FLUSH_THRESHOLD" = some Leaf.flushThreshold.dotted := by decide
  have hname' : Environment.key? "suiwatch__ingest__flush_threshold" = some Leaf.flushThreshold.dotted := by decide
  have hs : Documented ⟨none, some file, none, [("SUIWATCH__INGEST__FLUSH_THRESHOLD", "7")]⟩ :=
    ⟨by simpa [files] using hread, by simp [hname]⟩
  have ht : Documented ⟨none, none, none, [("suiwatch__ingest__flush_threshold", "7")]⟩ :=
    ⟨by simp [files], by simp [hname']⟩
  have hlast (leaf : Leaf) :
      decisive (offered ⟨none, some file, none, [("SUIWATCH__INGEST__FLUSH_THRESHOLD", "7")]⟩ leaf) =
        if leaf = .flushThreshold then some (.int 7) else none := by
    rw [offered_variable rfl hname]
    by_cases hleaf : leaf = .flushThreshold <;> simp [files, hfile, hleaf] <;> rfl
  have hlast' (leaf : Leaf) :
      decisive (offered ⟨none, none, none, [("suiwatch__ingest__flush_threshold", "7")]⟩ leaf) =
        if leaf = .flushThreshold then some (.int 7) else none := by
    rw [offered_variable rfl hname']
    by_cases hleaf : leaf = .flushThreshold <;> simp [files, hleaf] <;> rfl
  have hload := load_by_leaves.1 _ hs
  rw [funext hlast] at hload
  have hsame := load_by_leaves.2.1 _ _ hs ht fun leaf => (hlast leaf).trans (hlast' leaf).symm
  exact ⟨⟨_, _, rfl, rfl, hs, ht, hsame, hload.trans rfl⟩, load_by_leaves.2.2 _ ⟨.missing, by simp [files], rfl⟩⟩

/-- The last value for each leaf is not enough: an empty table is no threshold, but over a threshold it changes nothing,
and a threshold that is infinite fails its file though a later one overrides it. -/
theorem load_not_by_last :
    (¬ ∀ s t : Sources, s.Documented → t.Documented →
      (∀ leaf, (s.offered leaf).getLast? = (t.offered leaf).getLast?) → s.load = t.load) ∧
    (⟨none, some (.text "ingest:\n  flush_threshold: .inf\n"), some (.text "ingest:\n  flush_threshold: 5\n"), []⟩ :
      Sources).load = .error .unreadable ∧
    (⟨none, none, some (.text "ingest:\n  flush_threshold: 5\n"), []⟩ : Sources).load =
      .ok { ingest := { flushThreshold := 5 } } := by
  have hspelledFive : Yaml.setting Leaf.flushThreshold.keys "5".toList = "ingest:\n  flush_threshold: 5\n" := by decide
  have hspelledInfinity : Yaml.setting Leaf.flushThreshold.keys ".inf".toList =
      "ingest:\n  flush_threshold: .inf\n" := by decide
  have hfive (leaf : Leaf) := offered?_setting .flushThreshold Yaml.spells_five rfl leaf
  have hempty (leaf : Leaf) := offered?_setting .flushThreshold Yaml.spells_empty rfl leaf
  have hreadFive := documented_setting .flushThreshold Yaml.spells_five rfl (by simp)
  have hreadEmpty := documented_setting .flushThreshold Yaml.spells_empty rfl (by simp)
  have hunread := entries?_setting_eq_none .flushThreshold Yaml.spells_infinity
  rw [← hspelledFive, ← hspelledInfinity]
  generalize Source.text (Yaml.setting Leaf.flushThreshold.keys "5".toList) = five at hfive hreadFive ⊢
  generalize Source.text (Yaml.setting Leaf.flushThreshold.keys ['{', '}']) = empty at hempty hreadEmpty
  generalize Source.text (Yaml.setting Leaf.flushThreshold.keys ".inf".toList) = infinite at hunread ⊢
  refine ⟨fun h => ?_, load_of_unreadable ⟨infinite, by simp [files], hunread⟩, ?_⟩
  · have hs : Documented ⟨none, some five, some empty, []⟩ :=
      ⟨by simpa [files] using ⟨hreadFive, hreadEmpty⟩, by simp⟩
    have ht : Documented ⟨none, none, some empty, []⟩ := ⟨by simpa [files] using hreadEmpty, by simp⟩
    have hofferedS (leaf : Leaf) : offered ⟨none, some five, some empty, []⟩ leaf =
        if leaf = .flushThreshold then [.int 5, .table []] else [] := by
      by_cases hleaf : leaf = .flushThreshold <;> simp [offered, files, hfive, hempty, hleaf, Environment.settings]
    have hofferedT (leaf : Leaf) : offered ⟨none, none, some empty, []⟩ leaf =
        if leaf = .flushThreshold then [.table []] else [] := by
      by_cases hleaf : leaf = .flushThreshold <;> simp [offered, files, hempty, hleaf, Environment.settings]
    have hsame := h _ _ hs ht fun leaf => by
      rw [hofferedS, hofferedT]
      by_cases hleaf : leaf = .flushThreshold <;> simp [hleaf]
    rw [hs.load_eq, ht.load_eq, funext hofferedS, funext hofferedT] at hsame
    cases hsame
  · have hdocumented : Documented ⟨none, none, some five, []⟩ := ⟨by simpa [files] using hreadFive, by simp⟩
    have hoffered (leaf : Leaf) : offered ⟨none, none, some five, []⟩ leaf =
        if leaf = .flushThreshold then [.int 5] else [] := by
      by_cases hleaf : leaf = .flushThreshold <;> simp [offered, files, hfive, hleaf, Environment.settings]
    rw [hdocumented.load_eq, funext hoffered]
    rfl

end Sources

end EventIntake.Config
