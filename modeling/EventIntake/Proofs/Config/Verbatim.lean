import EventIntake.Proofs.Config.Precedence
import EventIntake.Proofs.Config.Respelling
import EventIntake.Proofs.Config.Yaml.Quoted

/-! Texts among the settings, as they arrive from a variable or from a file. -/
namespace EventIntake.Config
open Value

/-! ### Sections with a new text -/

section Parts
variable {new : Value} {s : String} (hnew : new.text? = some s)

/-- A value that is read, or that a table replaces. -/
def Value.Fits {α : Type} (read : Value → Option α) (v : Value) : Prop := v.entries = [] ∨ ∃ a, read v = some a

theorem Value.part_some {α : Type} (read : Value → Option α) (absent : α) (v : Value) :
    part read absent (some v) = read v := rfl

theorem Value.Fits.of_part {α : Type} {read : Value → Option α} {absent a : α} {v : Option Value}
    (h : part read absent v = some a) : (v.getD null).Fits read := by
  cases v with
  | none => exact .inl rfl
  | some v => exact .inr ⟨a, h⟩

theorem Postgres.parts {v : Value} (h : v.Fits Postgres.ofValue?) :
    ∃ poolSize, part uint32? ({} : Postgres).poolSize (Sorted.find? "pool_size" v.entries) = some poolSize := by
  rcases h with hempty | ⟨p, hp⟩
  · exact ⟨_, by rw [hempty]; rfl⟩
  · cases v with
    | table es =>
      simp only [Postgres.ofValue?, parts?, Option.bind_eq_bind, Option.bind_some, Option.bind_eq_some_iff] at hp
      obtain ⟨uri, -, poolSize, hpool, -⟩ := hp
      exact ⟨poolSize, hpool⟩
    | _ => exact ⟨_, rfl⟩

theorem Storage.parts {v : Value} (h : v.Fits Storage.ofValue?) :
    (∃ backend, part (case? backends) ({} : Storage).backend (Sorted.find? "type" v.entries) = some backend) ∧
      (∃ sqlite, part Sqlite.ofValue? {} (Sorted.find? "sqlite" v.entries) = some sqlite) ∧
      (∃ postgres, part Postgres.ofValue? {} (Sorted.find? "postgres" v.entries) = some postgres) ∧
      ∃ upsert, part bool? ({} : Storage).upsert (Sorted.find? "upsert" v.entries) = some upsert := by
  rcases h with hempty | ⟨p, hp⟩
  · rw [hempty]
    exact ⟨⟨_, rfl⟩, ⟨_, rfl⟩, ⟨_, rfl⟩, ⟨_, rfl⟩⟩
  · cases v with
    | table es =>
      simp only [Storage.ofValue?, parts?, Option.bind_eq_bind, Option.bind_some, Option.bind_eq_some_iff] at hp
      obtain ⟨backend, hbackend, sqlite, hsqlite, postgres, hpostgres, upsert, hupsert, -⟩ := hp
      exact ⟨⟨_, hbackend⟩, ⟨_, hsqlite⟩, ⟨_, hpostgres⟩, ⟨_, hupsert⟩⟩
    | _ => exact ⟨⟨_, rfl⟩, ⟨_, rfl⟩, ⟨_, rfl⟩, ⟨_, rfl⟩⟩

include hnew

theorem Sqlite.ofValue?_update (v : Value) : Sqlite.ofValue? (update (fun _ => new) ["path"] v) = some ⟨s⟩ := by
  simp [update, Sqlite.ofValue?, parts?, part, Sorted.find?_insert, hnew]

theorem Postgres.ofValue?_update {v : Value} (h : v.Fits Postgres.ofValue?) :
    ∃ p, Postgres.ofValue? (update (fun _ => new) ["uri"] v) = some p ∧ p.uri = s := by
  obtain ⟨poolSize, hpool⟩ := Postgres.parts h
  exact ⟨⟨s, poolSize⟩, by simp [update, Postgres.ofValue?, parts?, part_some, Sorted.find?_insert, hnew, hpool], rfl⟩

theorem Storage.ofValue?_update {v : Value} (h : v.Fits Storage.ofValue?) :
    (∃ t, Storage.ofValue? (update (fun _ => new) ["sqlite", "path"] v) = some t ∧ t.sqlite.path = s) ∧
      ∃ t, Storage.ofValue? (update (fun _ => new) ["postgres", "uri"] v) = some t ∧ t.postgres.uri = s := by
  obtain ⟨⟨backend, hbackend⟩, ⟨sqlite, hsqlite⟩, ⟨postgres, hpostgres⟩, ⟨upsert, hupsert⟩⟩ := Storage.parts h
  constructor
  · have hpath := Sqlite.ofValue?_update hnew ((Sorted.find? "sqlite" v.entries).getD null)
    refine ⟨⟨backend, ⟨s⟩, postgres, upsert⟩, ?_, rfl⟩
    rw [update]
    simp [Storage.ofValue?, parts?, part_some, Sorted.find?_insert, hpath, hbackend, hpostgres, hupsert]
  · obtain ⟨p, hp, huri⟩ := Postgres.ofValue?_update hnew (Fits.of_part hpostgres)
    refine ⟨⟨backend, sqlite, p, upsert⟩, ?_, huri⟩
    rw [update]
    simp [Storage.ofValue?, parts?, part_some, Sorted.find?_insert, hp, hbackend, hsqlite, hupsert]

end Parts

/-- The text of a leaf that is one. -/
def Settings.text? (c : Settings) : Leaf → Option String
  | .sqlitePath => some c.storage.sqlite.path
  | .postgresUri => some c.storage.postgres.uri
  | _ => none

theorem Settings.parts {root : Value} {c : Settings} (h : Settings.ofValue? root = some c)
    (hvalid : c.ingest.flushThreshold ≠ 0) :
    (∃ ingest, part Ingest.ofValue? {} (Sorted.find? "ingest" root.entries) = some ingest ∧ ingest.flushThreshold ≠ 0) ∧
      ∃ storage, part Storage.ofValue? {} (Sorted.find? "storage" root.entries) = some storage := by
  cases root with
  | table es =>
    simp only [Settings.ofValue?, parts?, Option.bind_eq_bind, Option.bind_some, Option.bind_eq_some_iff] at h
    obtain ⟨ingest, hingest, storage, hstorage, hc⟩ := h
    cases hc
    exact ⟨⟨ingest, hingest, hvalid⟩, ⟨storage, hstorage⟩⟩
  | _ => exact ⟨⟨{}, rfl, by decide⟩, ⟨{}, rfl⟩⟩

/-- Valid settings stay valid with a new text. -/
theorem Settings.ofValue?_update {leaf : Leaf} (hleaf : leaf = .sqlitePath ∨ leaf = .postgresUri) {new : Value}
    {s : String} (hnew : new.text? = some s) {root : Value} {c : Settings} (h : Settings.ofValue? root = some c)
    (hvalid : c.ingest.flushThreshold ≠ 0) :
    ∃ c', Settings.ofValue? (update (fun _ => new) leaf.keys root) = some c' ∧ c'.text? leaf = some s ∧
      c'.ingest.flushThreshold ≠ 0 := by
  obtain ⟨⟨ingest, hingest, hpositive⟩, ⟨storage, hstorage⟩⟩ := Settings.parts h hvalid
  obtain ⟨⟨t, ht, hpath⟩, ⟨u, hu, huri⟩⟩ := Storage.ofValue?_update hnew (Fits.of_part hstorage)
  rcases hleaf with rfl | rfl
  · refine ⟨⟨ingest, t⟩, ?_, by rw [text?, hpath], hpositive⟩
    rw [Leaf.keys, update]
    simp [Settings.ofValue?, parts?, part_some, Sorted.find?_insert, ht, hingest]
  · refine ⟨⟨ingest, u⟩, ?_, by rw [text?, huri], hpositive⟩
    rw [Leaf.keys, update]
    simp [Settings.ofValue?, parts?, part_some, Sorted.find?_insert, hu, hingest]

/-! ### One leaf among settings in any order -/

theorem Value.not_apart_self (keys : List String) : ¬ Apart keys keys := by
  induction keys with
  | nil => exact id
  | cons key keys ih => exact fun h => h.elim (fun hne => hne rfl) ih

/-- Variables of which none leads to the given keys, above or below them. -/
def Environment.Spares (keys : List String) (env : List (String × String)) : Prop :=
  ∀ e ∈ env, ∀ key ∈ Environment.key? e.1, Apart (pathOf key).lead keys

namespace Leaf
variable {leaf : Leaf}

/-- A setting that is no table and leads neither to a leaf nor above or below it. -/
def SparedBy (leaf : Leaf) (e : String × Value) : Prop := (∀ es, e.2 ≠ table es) ∧ Apart (pathOf e.1).lead leaf.keys

theorem ne_dotted_of_spares {env : List (String × String)} (h : Environment.Spares leaf.keys env) :
    ∀ e ∈ env, Environment.key? e.1 ≠ some leaf.dotted := by
  intro e he hkey
  have hapart := h e he leaf.dotted hkey
  rw [leaf.lead_dotted.1] at hapart
  exact not_apart_self _ hapart

theorem sparedBy_of_mem {env : List (String × String)} {e : String × Value} (he : e ∈ Environment.settings env)
    (h : ∀ v ∈ env, Environment.key? v.1 = some e.1 → Environment.Spares leaf.keys [v]) : leaf.SparedBy e := by
  obtain ⟨v, hv, hkey, -⟩ := Environment.exists_of_mem_settings he
  exact ⟨Environment.ne_table_of_mem he, h v hv hkey v (List.mem_singleton_self v) e.1 hkey⟩

/-- Where all variables spare a leaf or set its very key, the settings under other keys spare it. -/
theorem sparedBy_of_mem_erase {env : List (String × String)}
    (h : ∀ e ∈ env, Environment.key? e.1 = some leaf.dotted ∨ Environment.Spares leaf.keys [e]) :
    ∀ e ∈ Sorted.erase leaf.dotted (Environment.settings env), leaf.SparedBy e := by
  intro e he
  obtain ⟨hmem, hne⟩ := (Environment.ascending_settings env).mem_erase_iff.mp he
  apply sparedBy_of_mem hmem
  intro v hv hkey
  apply (h v hv).resolve_left
  intro hsame
  exact hne (Option.some.inj (hkey.symm.trans hsame))

/-- In whatever order, the setting of a leaf comes over the others as if it were the last. -/
theorem overlay_perm {settings settings' : List (String × Value)} {new : Value}
    (hnew : Sorted.find? leaf.dotted settings = some new) (htable : ∀ es, new ≠ table es)
    (hothers : ∀ e ∈ Sorted.erase leaf.dotted settings, leaf.SparedBy e) (hp : settings'.Perm settings) :
    ∃ others, others.Perm (Sorted.erase leaf.dotted settings) ∧
      ∀ root, overlay settings' root = update (fun _ => new) leaf.keys (overlay others root) := by
  obtain ⟨front, back, rfl⟩ := List.append_of_mem (hp.mem_iff.mpr (Sorted.mem_of_find? hnew))
  have hperm : (front ++ back).Perm (Sorted.erase leaf.dotted settings) :=
    (List.perm_middle.symm.trans (hp.trans (Sorted.perm_cons_erase hnew))).cons_inv
  have hback : ∀ e ∈ back, leaf.SparedBy e := fun e he => hothers e (hperm.mem_iff.mp (List.mem_append_right _ he))
  refine ⟨front ++ back, hperm, fun root => ?_⟩
  calc overlay (front ++ (leaf.dotted, new) :: back) root
    _ = overlay back (set (pathOf leaf.dotted) new (overlay front root)) := overlay_append front _ root
    _ = overlay back (update (fun _ => new) leaf.keys (overlay front root)) := by rw [leaf.set_dotted htable]
    _ = update (fun _ => new) leaf.keys (overlay back (overlay front root)) := overlay_update hback _ _
    _ = update (fun _ => new) leaf.keys (overlay (front ++ back) root) := by rw [overlay_append]

/-- An order of the settings besides that of a leaf is one of all settings, up to what stands at the leaf. -/
theorem exists_perm_update {settings others : List (String × Value)} (htables : ∀ e ∈ settings, ∀ es, e.2 ≠ table es)
    (hp : others.Perm (Sorted.erase leaf.dotted settings)) :
    ∃ settings', settings'.Perm settings ∧ ∀ (new root : Value),
      update (fun _ => new) leaf.keys (overlay settings' root) = update (fun _ => new) leaf.keys (overlay others root) := by
  cases hold : Sorted.find? leaf.dotted settings with
  | none =>
    rw [Sorted.erase_of_find?_eq_none hold] at hp
    exact ⟨others, hp, fun _ _ => rfl⟩
  | some old =>
    have htable := htables _ (Sorted.mem_of_find? hold)
    have hall := (Sorted.perm_cons_erase hold).symm
    refine ⟨others ++ [(leaf.dotted, old)], (List.perm_append_singleton _ _).trans ((hp.cons _).trans hall), ?_⟩
    intro new root
    have hlast : overlay (others ++ [(leaf.dotted, old)]) root =
        update (fun _ => old) leaf.keys (overlay others root) := by
      rw [← leaf.set_dotted htable, overlay_append]
      rfl
    rw [hlast, update_update]
    rfl

/-- A file with nothing but a leaf in it sets that leaf. -/
theorem overlay_nest {es : List (String × Value)} {new : Value} (hnew : ∀ es, new ≠ table es)
    (hes : table es = nest leaf.keys new) (root : Value) :
    overlay es root = update (fun _ => new) leaf.keys root := by
  have hlower : ∀ k ∈ leaf.keys, lowerKey k = k := lowerKey_places _ leaf.keys_mem_places
  have hpaths : ∀ e ∈ es, pathOf e.1 = .entry e.1 := by
    have hsections : pathOf "ingest" = .entry "ingest" ∧ pathOf "storage" = .entry "storage" := by decide
    cases leaf <;> cases hes <;> simp [hsections]
  have hmerge : mergeInto root es = merge (some root) (table es) := rfl
  rw [overlay_eq_mergeInto hpaths, hmerge, hes, merge_nest hlower hnew, Option.getD_some]

end Leaf

/-! ### Loading with a new text -/

namespace Sources

/-- What the files merged may be, without the environment. -/
def FilesMerge (s : Sources) (v : Value) : Prop :=
  ∃ layers, s.files.mapM entries? = some layers ∧ Merges (table []) layers v

/-- Loading always succeeds if the files can be read and the settings fit in every order of the variables. -/
theorem loadsTo_iff {s : Sources} {p : Settings → Prop} :
    s.LoadsTo p ↔ s.files.mapM entries? ≠ none ∧ ∀ root settings, s.FilesMerge root →
      settings.Perm (Environment.settings s.env) → ∃ c, settle (some (overlay settings root)) = .ok c ∧ p c := by
  have hlayers : s.layers? = (s.files.mapM entries?).map (· ++ [Environment.settings s.env]) := by
    simp only [layers?]
    cases s.files.mapM entries? <;> rfl
  constructor
  · intro h
    refine ⟨fun hnone => ?_, ?_⟩
    · obtain ⟨c, hc, -⟩ := h _ (.unreadable (by rw [hlayers, hnone, Option.map_none]))
      cases hc
    · rintro root settings ⟨layers, hfiles, hmerges⟩ hperm
      have hlast : Merges root [Environment.settings s.env] (overlay settings root) :=
        merges_singleton_iff.mpr ⟨settings, .perm hperm.symm, rfl⟩
      exact h _ (.merged (by rw [hlayers, hfiles, Option.map_some]) (merges_append_iff.mpr ⟨root, hmerges, hlast⟩))
  · rintro ⟨hread, h⟩ r hr
    cases hr with
    | unreadable hnone =>
      rw [hlayers, Option.map_eq_none_iff] at hnone
      exact absurd hnone hread
    | merged hsome hmerges =>
      rw [hlayers] at hsome
      obtain ⟨layers, hfiles, rfl⟩ := Option.map_eq_some_iff.mp hsome
      obtain ⟨root, hroot, hlast⟩ := merges_append_iff.mp hmerges
      obtain ⟨settings, horder, rfl⟩ := merges_singleton_iff.mp hlast
      obtain ⟨_, ⟨⟩, hperm⟩ := horder.exists_perm fun e he => entries_eq_nil (Environment.ne_table_of_mem he)
      exact h root settings ⟨layers, hfiles, hroot⟩ hperm

theorem settle_eq_ok_iff {v : Value} {c : Settings} :
    settle (some v) = .ok c ↔ Settings.ofValue? v = some c ∧ c.ingest.flushThreshold ≠ 0 := by
  rw [settle, Option.bind_some]
  cases Settings.ofValue? v with
  | none => simp
  | some c' =>
    by_cases hzero : c'.ingest.flushThreshold = 0
    · have hinvalid : c' = c → c.ingest.flushThreshold = 0 := fun h => h ▸ hzero
      simpa [Settings.validate, hzero, Except.mapError] using hinvalid
    · have hvalid : c' = c → c.ingest.flushThreshold ≠ 0 := fun h => h ▸ hzero
      simpa [Settings.validate, hzero, Except.mapError] using hvalid

/-- With no sources at all the defaults are loaded. -/
theorem loadsTo_default : ({} : Sources).LoadsTo fun _ => True := by
  have hdocumented : Documented {} := ⟨by simp [files], by simp⟩
  exact fun r hr => ⟨{}, hdocumented.loads_iff.mp hr, trivial⟩

section Leaves
variable {leaf : Leaf} (hleaf : leaf = .sqlitePath ∨ leaf = .postgresUri)
include hleaf

/-- Valid settings stay valid when one of the two texts is put over them, and it arrives. -/
theorem settle_update {new root : Value} {x : String} (hnew : new.text? = some x)
    (h : ∃ c, settle (some root) = .ok c ∧ True) :
    ∃ c, settle (some (update (fun _ => new) leaf.keys root)) = .ok c ∧ c.text? leaf = some x := by
  obtain ⟨c, hc, -⟩ := h
  obtain ⟨hread, hvalid⟩ := settle_eq_ok_iff.mp hc
  obtain ⟨c', hc', htext, hvalid'⟩ := Settings.ofValue?_update hleaf hnew hread hvalid
  exact ⟨c', settle_eq_ok_iff.mpr ⟨hc', hvalid'⟩, htext⟩

/-- What stands under the key of a leaf arrives if the sources are valid with something else there, or nothing. -/
theorem loadsTo_of_same_others (s : Sources) {env env' : List (String × String)} {v : String}
    (hstands : Sorted.find? leaf.dotted (Environment.settings env) = some (Environment.guess v))
    (hsame : Sorted.erase leaf.dotted (Environment.settings env) =
      Sorted.erase leaf.dotted (Environment.settings env'))
    (hspares : ∀ e ∈ env, Environment.key? e.1 = some leaf.dotted ∨ Environment.Spares leaf.keys [e])
    (hvalid : { s with env := env' }.LoadsTo fun _ => True) :
    { s with env := env }.LoadsTo fun c => c.text? leaf = some (Environment.respelled v) := by
  obtain ⟨hread, hsettles⟩ := loadsTo_iff.mp hvalid
  refine loadsTo_iff.mpr ⟨hread, fun root settings hroot hperm => ?_⟩
  obtain ⟨others, hothers, hlast⟩ :=
    Leaf.overlay_perm hstands (Environment.guess_ne v).1 (Leaf.sparedBy_of_mem_erase hspares) hperm
  obtain ⟨settings', hperm', hupdate⟩ := Leaf.exists_perm_update (fun e he => Environment.ne_table_of_mem he) (hsame ▸ hothers)
  rw [hlast, ← hupdate]
  exact settle_update hleaf (Environment.text?_guess v) (hsettles root settings' hroot hperm')

/-- What a variable sets arrives unless a later one leads to the leaf, or an earlier one under another key. -/
theorem loadsTo_variable (s : Sources) {earlier later : List (String × String)} {name : String}
    (hname : Environment.key? name = some leaf.dotted)
    (hearlier : ∀ e ∈ earlier, Environment.key? e.1 = some leaf.dotted ∨ Environment.Spares leaf.keys [e])
    (hlater : Environment.Spares leaf.keys later)
    (hvalid : { s with env := earlier ++ later }.LoadsTo (fun _ => True) ∨
      ∃ w, { s with env := earlier ++ (name, w) :: later }.LoadsTo fun _ => True) (v : String) :
    { s with env := earlier ++ (name, v) :: later }.LoadsTo fun c =>
      c.text? leaf = some (Environment.respelled v) := by
  have hsettings (w : String) := Environment.settings_variable hname w earlier (Leaf.ne_dotted_of_spares hlater)
  have hothers (w : String) : Sorted.erase leaf.dotted (Environment.settings (earlier ++ (name, w) :: later)) =
      Sorted.erase leaf.dotted (Environment.settings (earlier ++ later)) := by
    rw [hsettings, (Environment.ascending_settings _).erase_insert]
  have hstands : Sorted.find? leaf.dotted (Environment.settings (earlier ++ (name, v) :: later)) =
      some (Environment.guess v) := by
    rw [hsettings, Sorted.find?_insert, if_pos rfl]
  have hspares : ∀ e ∈ earlier ++ (name, v) :: later,
      Environment.key? e.1 = some leaf.dotted ∨ Environment.Spares leaf.keys [e] := by
    refine List.forall_mem_append.mpr ⟨hearlier, List.forall_mem_cons.mpr ⟨.inl hname, fun e he => .inr ?_⟩⟩
    exact List.forall_mem_singleton.mpr (hlater e he)
  rcases hvalid with hvalid | ⟨w, hvalid⟩
  · exact loadsTo_of_same_others hleaf s hstands (hothers v) hspares hvalid
  · exact loadsTo_of_same_others hleaf s hstands ((hothers v).trans (hothers w).symm) hspares hvalid

/-- What the strongest file has at a leaf arrives if no variable leads to it. -/
theorem loadsTo_setting {s t : Sources} {scalar : List Char} {v : String} (h : Yaml.Spells scalar (some (.text v)))
    (hfiles : t.files = s.files ++ [.text (Yaml.setting leaf.keys scalar)]) (henv : t.env = s.env)
    (hspares : Environment.Spares leaf.keys s.env) (hvalid : s.LoadsTo fun _ => True) :
    t.LoadsTo fun c => c.text? leaf = some v := by
  obtain ⟨es, hread, hes⟩ := entries?_setting leaf h
  have htable : ∀ es, Value.text v ≠ table es := by simp
  have hmapM : t.files.mapM entries? = (s.files.mapM entries?).map (· ++ [es]) := by
    rw [hfiles, List.mapM_append, List.mapM_cons, List.mapM_nil, hread]
    cases s.files.mapM entries? <;> rfl
  obtain ⟨hreadable, hsettles⟩ := loadsTo_iff.mp hvalid
  refine loadsTo_iff.mpr ⟨by simpa [hmapM] using hreadable, ?_⟩
  rintro root settings ⟨layers, hlayers, hmerges⟩ hperm
  rw [hmapM] at hlayers
  obtain ⟨layers, hbelow, rfl⟩ := Option.map_eq_some_iff.mp hlayers
  obtain ⟨below, hmerged, hlast⟩ := merges_append_iff.mp hmerges
  obtain ⟨es', horder, rfl⟩ := merges_singleton_iff.mp hlast
  -- the file has one entry at each depth, so there is no other order of its own
  have hsame : table es' = nest leaf.keys (.text v) := (hes ▸ horder).eq_of_nest rfl
  have hspared : ∀ e ∈ settings, leaf.SparedBy e := by
    intro e he
    apply Leaf.sparedBy_of_mem (hperm.mem_iff.mp he)
    intro w hw _
    exact List.forall_mem_singleton.mpr (hspares w (henv ▸ hw))
  rw [Leaf.overlay_nest htable hsame, overlay_update hspared]
  exact settle_update hleaf rfl (hsettles below settings ⟨layers, hbelow, hmerged⟩ (henv ▸ hperm))

end Leaves

/-- A path or an address that a variable sets arrives as the text of the value it spells, and so as it is if some
character is in it that truth values and numbers are not spelled with. Of the other variables only earlier ones of the very
same key may lead to it; the rest may come in any order. In quotes in the strongest file it arrives as it is, whatever it
spells. -/
theorem load_text {leaf : Leaf} (hleaf : leaf = .sqlitePath ∨ leaf = .postgresUri) (s : Sources) (v : String) :
    (∀ earlier later name, Environment.key? name = some leaf.dotted →
      (∀ e ∈ earlier, Environment.key? e.1 = some leaf.dotted ∨ Environment.Spares leaf.keys [e]) →
      Environment.Spares leaf.keys later →
      ({ s with env := earlier ++ later }.LoadsTo (fun _ => True) ∨
        ∃ w, { s with env := earlier ++ (name, w) :: later }.LoadsTo fun _ => True) →
      { s with env := earlier ++ (name, v) :: later }.LoadsTo fun c =>
        c.text? leaf = some (Environment.respelled v)) ∧
    ((∃ c ∈ v.toList, Environment.isSpelling c = false) → Environment.respelled v = v) ∧
    (∃ cs, Yaml.Quotes '"' cs v.toList ∧ ∀ c ∈ cs, Yaml.isOrdinary c = true) ∧
    ∀ mark cs (t : Sources), (mark = '"' ∨ mark = '\'') → Yaml.Quotes mark cs v.toList →
      (∀ c ∈ cs, Yaml.isOrdinary c = true) →
      t.files = s.files ++ [.text (Yaml.setting leaf.keys (mark :: (cs ++ [mark])))] → t.env = s.env →
      Environment.Spares leaf.keys s.env → s.LoadsTo (fun _ => True) → t.LoadsTo fun c => c.text? leaf = some v := by
  refine ⟨fun earlier later name hname hearlier hlater hvalid => ?_, Environment.respelled_eq_self,
    Yaml.exists_quotes v.toList, fun mark cs t hmark hquotes hordinary hfiles henv hspares hvalid => ?_⟩
  · exact loadsTo_variable hleaf s hname hearlier hlater hvalid v
  · exact loadsTo_setting hleaf (Yaml.spells_quoted hmark hquotes hordinary) hfiles henv hspares hvalid

/-- Zeros before a number are kept in a file name and between quotes. -/
theorem load_text_zeros :
    (⟨none, none, none, [("SUIWATCH__STORAGE__SQLITE__PATH", "007/events.db")]⟩ : Sources).LoadsTo
      (fun c => c.storage.sqlite.path = "007/events.db") ∧
    (⟨none, some (.text "storage:\n  sqlite:\n    path: \"007\"\n"), none, []⟩ : Sources).LoadsTo
      fun c => c.storage.sqlite.path = "007" := by
  constructor
  · obtain ⟨hvariable, hkept, -⟩ := load_text (.inl rfl) {} "007/events.db"
    intro r hr
    obtain ⟨c, hc, htext⟩ := hvariable [] [] "SUIWATCH__STORAGE__SQLITE__PATH" (by decide) (by simp)
      (by simp [Environment.Spares]) (.inl loadsTo_default) r hr
    rw [hkept ⟨'/', by decide, by decide⟩] at htext
    exact ⟨c, hc, Option.some.inj htext⟩
  · obtain ⟨-, -, -, hquoted⟩ := load_text (.inl rfl) {} "007"
    have hspelled : Yaml.setting Leaf.sqlitePath.keys "\"007\"".toList =
        "storage:\n  sqlite:\n    path: \"007\"\n" := by decide
    have hquotes : Yaml.Quotes '"' "007".toList "007".toList :=
      .kept (by decide) (by decide) (by decide) <| .kept (by decide) (by decide) (by decide) <|
        .kept (by decide) (by decide) (by decide) .nil
    rw [← hspelled]
    intro r hr
    obtain ⟨c, hc, htext⟩ := hquoted '"' "007".toList
      ⟨none, some (.text (Yaml.setting Leaf.sqlitePath.keys "\"007\"".toList)), none, []⟩
      (.inl rfl) hquotes (List.all_eq_true.mp rfl) rfl rfl (by simp [Environment.Spares]) loadsTo_default r hr
    exact ⟨c, hc, Option.some.inj htext⟩

/-- A variable is not always taken as it is: zeros before a number are lost. -/
theorem load_not_verbatim :
    ¬ ∀ v : String, v ≠ "" → Char.ofNat 0 ∉ v.toList →
      ∃ c, (⟨none, none, none, [("SUIWATCH__STORAGE__SQLITE__PATH", v)]⟩ : Sources).load = .ok c ∧
        c.storage.sqlite.path = v := by
  intro h
  obtain ⟨c, hc, hpath⟩ := h "007" (by decide) (by decide)
  have hname : Environment.key? "SUIWATCH__STORAGE__SQLITE__PATH" = some Leaf.sqlitePath.dotted := by decide
  have hlost : Environment.respelled "007" = "7" := by rfl
  have hspares : Environment.Spares Leaf.sqlitePath.keys [] := by simp [Environment.Spares]
  have hloads := loadsTo_variable (.inl rfl) {} hname (List.forall_mem_nil _) hspares (.inl loadsTo_default) "007"
  obtain ⟨c', hc', htext⟩ := hloads.load
  cases hc.symm.trans hc'
  rw [Settings.text?, hpath, hlost] at htext
  exact absurd htext (by decide)

end Sources

end EventIntake.Config
