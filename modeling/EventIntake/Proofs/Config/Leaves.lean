import EventIntake.Config.Convert
import EventIntake.Proofs.Config.Merge

/-! The settings that are set one by one, and what the whole makes of them. -/
namespace EventIntake.Config
open Event

/-- A setting below its section. -/
inductive Leaf
  | eventTypes
  | flushThreshold
  | subscribeRetries
  | backend
  | sqlitePath
  | postgresUri
  | poolSize
  | upsert
  deriving DecidableEq, Repr

namespace Leaf

/-- The keys from the root down to a setting. -/
def keys : Leaf → List String
  | eventTypes => ["ingest", "event_types"]
  | flushThreshold => ["ingest", "flush_threshold"]
  | subscribeRetries => ["ingest", "subscribe_retries"]
  | backend => ["storage", "type"]
  | sqlitePath => ["storage", "sqlite", "path"]
  | postgresUri => ["storage", "postgres", "uri"]
  | poolSize => ["storage", "postgres", "pool_size"]
  | upsert => ["storage", "upsert"]

/-- The keys from the root down to a section; the root is one, too. -/
def sections : List (List String) :=
  [[], ["ingest"], ["storage"], ["storage", "sqlite"], ["storage", "postgres"]]

def all : List Leaf :=
  [eventTypes, flushThreshold, subscribeRetries, backend, sqlitePath, postgresUri, poolSize, upsert]

/-- All keys that lead somewhere. -/
def places : List (List String) := sections ++ all.map keys

theorem keys_mem_places (leaf : Leaf) : leaf.keys ∈ places := by cases leaf <;> decide

theorem lowerKey_places : ∀ keys ∈ places, ∀ k ∈ keys, Value.lowerKey k = k := by decide

/-- Nothing is below a setting. -/
theorem not_below (leaf : Leaf) : ∀ keys ∈ places, leaf.keys <+: keys → keys = leaf.keys := by
  cases leaf <;> decide

/-- The key of a leaf among the variables of an environment. -/
def dotted (leaf : Leaf) : String := ".".intercalate leaf.keys

theorem lead_dotted (leaf : Leaf) :
    (Value.pathOf leaf.dotted).lead = leaf.keys ∧ (Value.pathOf leaf.dotted).indexed = false := by
  cases leaf <;> decide

theorem set_dotted (leaf : Leaf) {new : Value} (hnew : ∀ es, new ≠ .table es) (root : Value) :
    Value.set (Value.pathOf leaf.dotted) new root = Value.update (fun _ => new) leaf.keys root := by
  obtain ⟨hlead, hindexed⟩ := leaf.lead_dotted
  obtain ⟨g, hg, hsame⟩ := Value.exists_modify_eq_update (fun _ => new) (Value.pathOf leaf.dotted)
  rw [Value.set_eq_modify hnew, hg, hsame hindexed, hlead]

theorem dotted_injective {leaf leaf' : Leaf} (h : leaf.dotted = leaf'.dotted) : leaf = leaf' := by
  revert h
  cases leaf <;> cases leaf' <;> decide

/-- The beginnings of the keys of a leaf are those of sections. -/
theorem mem_sections_of_split {leaf : Leaf} {front rest : List String} (h : leaf.keys = front ++ rest)
    (hrest : rest ≠ []) : front ∈ sections := by
  have hshort : front.length < leaf.keys.length := by
    rw [h, List.length_append]
    exact Nat.lt_add_of_pos_right (List.length_pos_iff.mpr hrest)
  have hfront : front = leaf.keys.take front.length := by rw [h, List.take_left]
  have hall : ∀ n < leaf.keys.length, leaf.keys.take n ∈ sections := by cases leaf <;> decide
  rw [hfront]
  exact hall _ hshort

end Leaf

namespace Value

/-- Settings under the keys of the program, with a table for each section and nothing null. -/
def Documented (v : Value) : Prop :=
  ∀ keys w, v.at? keys = some w →
    (keys ∈ Leaf.sections ∧ ∃ es, w = table es) ∨ ((∃ leaf : Leaf, keys = leaf.keys) ∧ w ≠ null)

/-- All sections that are there are tables, the root among them. -/
def Sectioned (v : Value) : Prop := ∀ keys ∈ Leaf.sections, ∀ w, v.at? keys = some w → ∃ es, w = table es

/-- A value that merging puts in place as it is, or an empty table. -/
def Flat (v : Value) : Prop := ∀ es, v = table es → es = []

theorem at?_append (front keys : List String) (v : Value) :
    v.at? (front ++ keys) = (v.at? front).bind (at? keys) := by
  induction front generalizing v with
  | nil => rfl
  | cons k front ih =>
    rw [List.cons_append, at?, at?, Option.bind_assoc]
    exact congrArg _ (funext ih)

theorem Documented.mem_places {v w : Value} (h : v.Documented) {keys : List String} (hw : v.at? keys = some w) :
    keys ∈ Leaf.places := by
  rcases h keys w hw with ⟨hsection, -⟩ | ⟨⟨leaf, rfl⟩, -⟩
  · exact List.mem_append_left _ hsection
  · exact leaf.keys_mem_places

theorem Documented.sectioned {v : Value} (h : v.Documented) : v.Sectioned := by
  intro keys hkeys w hw
  rcases h keys w hw with ⟨-, htable⟩ | ⟨⟨leaf, rfl⟩, -⟩
  · exact htable
  · exact absurd hkeys (by cases leaf <;> decide)

theorem exists_at?_of_mem {v : Value} {keys : List String} {es : List (String × Value)}
    (hes : v.at? keys = some (table es)) {e : String × Value} (he : e ∈ es) : ∃ w, v.at? (keys ++ [e.1]) = some w := by
  have hfound : Sorted.find? e.1 es ≠ none := fun hn => Sorted.find?_eq_none_iff.mp hn (List.mem_map_of_mem he)
  obtain ⟨w, hw⟩ := Option.ne_none_iff_exists'.mp hfound
  exact ⟨w, by simp [at?_append, hes, at?, entries, hw]⟩

theorem Documented.flat {v w : Value} (h : v.Documented) {leaf : Leaf} (hw : v.at? leaf.keys = some w) : w.Flat := by
  rintro es rfl
  refine List.eq_nil_iff_forall_not_mem.mpr fun e he => ?_
  obtain ⟨below, hbelow⟩ := exists_at?_of_mem hw he
  have hsame := leaf.not_below _ (h.mem_places hbelow) (List.prefix_append _ _)
  simp at hsame

theorem Documented.plain {v : Value} (h : v.Documented)
    (hnodup : ∀ keys es, v.at? keys = some (table es) → (es.map Prod.fst).Nodup) : v.Plain := by
  refine fun keys es hes => ⟨hnodup keys es hes, fun e he => ?_⟩
  obtain ⟨w, hw⟩ := exists_at?_of_mem hes he
  exact Leaf.lowerKey_places _ (h.mem_places hw) e.1 (by simp)

/-- What leads to a place is a table. -/
theorem Documented.begins {v : Value} (h : v.Documented) {keys : List String} (hkeys : keys ∈ Leaf.places)
    (front rest : List String) (hsplit : keys = front ++ rest) (hrest : rest ≠ []) (w : Value)
    (hw : v.at? front = some w) : ∃ es, w = table es := by
  rcases h front w hw with ⟨-, htable⟩ | ⟨⟨leaf, rfl⟩, -⟩
  · exact htable
  · have hsame := leaf.not_below keys hkeys (hsplit ▸ List.prefix_append _ _)
    exact absurd (List.append_right_eq_self.mp (hsplit.symm.trans hsame)) hrest

/-! ### One leaf alone -/

section Nested
variable {v : Value} (hempty : v.entries = [])
include hempty

theorem at?_nest_leaf (leaf leaf' : Leaf) :
    (nest leaf.keys v).at? leaf'.keys = if leaf' = leaf then some v else none := by
  split
  · rename_i he
    rw [he, at?_nest_self]
  · rename_i hne
    refine Option.eq_none_iff_forall_ne_some.mpr fun w hw => hne ?_
    obtain ⟨rest, hsplit, -⟩ := at?_nest hempty hw
    have hsame := leaf'.not_below _ leaf.keys_mem_places (hsplit ▸ List.prefix_append _ _)
    revert hsame
    cases leaf <;> cases leaf' <;> simp [Leaf.keys]

variable (hnull : v ≠ null)
include hnull

theorem documented_nest (leaf : Leaf) : (nest leaf.keys v).Documented := by
  intro keys w hw
  obtain ⟨rest, hsplit, rfl⟩ := at?_nest hempty hw
  cases rest with
  | nil => exact .inr ⟨⟨leaf, by rw [hsplit, List.append_nil]⟩, hnull⟩
  | cons key rest => exact .inl ⟨leaf.mem_sections_of_split hsplit (List.cons_ne_nil _ _), _, rfl⟩

theorem plain_nest (leaf : Leaf) : (nest leaf.keys v).Plain := by
  refine (documented_nest hempty hnull leaf).plain fun keys es hes => ?_
  obtain ⟨rest, -, hrest⟩ := at?_nest hempty hes
  cases rest with
  | nil =>
    have hes : es = [] := (congrArg entries hrest).trans hempty
    simp [hes]
  | cons key rest =>
    cases hrest
    simp

end Nested

/-! ### Merging settings over the ones so far -/

theorem Sectioned.merge {root new : Value} (hroot : root.Sectioned) (hnew : new.Documented) (hplain : new.Plain) :
    (Value.merge (some root) new).Sectioned := by
  intro keys hkeys w hw
  have hplace : keys ∈ Leaf.places := List.mem_append_left _ hkeys
  rw [at?_merge hplain (hnew.begins hplace)] at hw
  cases hn : new.at? keys with
  | none => exact hroot keys hkeys w (by simpa [hn] using hw)
  | some v =>
    obtain ⟨es, rfl⟩ := hnew.sectioned keys hkeys v hn
    have htarget : ∃ es', (root.at? keys).getD (table []) = table es' := by
      cases hr : root.at? keys with
      | none => exact ⟨[], rfl⟩
      | some r => exact hroot keys hkeys r hr
    obtain rfl : mergeInto ((root.at? keys).getD (table [])) es = w := by simpa [hn, Value.merge] using hw
    exact isTable_mergeInto htarget es

end Value

/-! ### Settings from their leaves -/

/-- The settings that leaves spell, each by itself, with a default for one that is not given. -/
def Settings.ofLeaves? (given : Leaf → Option Value) : Option Settings := do
  let eventTypes ← Value.part (Value.list? (Value.case? Category.byName)) ({} : Ingest).eventTypes (given .eventTypes)
  let flushThreshold ← Value.part Value.uint64? ({} : Ingest).flushThreshold (given .flushThreshold)
  let subscribeRetries ← Value.part Value.uint64? ({} : Ingest).subscribeRetries (given .subscribeRetries)
  let backend ← Value.part (Value.case? backends) ({} : Storage).backend (given .backend)
  let path ← Value.part Value.text? ({} : Sqlite).path (given .sqlitePath)
  let uri ← Value.part Value.text? ({} : Postgres).uri (given .postgresUri)
  let poolSize ← Value.part Value.uint32? ({} : Postgres).poolSize (given .poolSize)
  let upsert ← Value.part Value.bool? ({} : Storage).upsert (given .upsert)
  some ⟨⟨eventTypes, flushThreshold, subscribeRetries⟩, ⟨backend, ⟨path⟩, ⟨uri, poolSize⟩, upsert⟩⟩

section Sections
variable {part : Option Value} (h : part = none ∨ ∃ es, part = some (.table es))
include h

theorem Ingest.part_eq :
    Value.part Ingest.ofValue? {} part = (do
      let eventTypes ← Value.part (Value.list? (Value.case? Category.byName)) ({} : Ingest).eventTypes
        (part.bind (Value.at? ["event_types"]))
      let flushThreshold ← Value.part Value.uint64? ({} : Ingest).flushThreshold
        (part.bind (Value.at? ["flush_threshold"]))
      let subscribeRetries ← Value.part Value.uint64? ({} : Ingest).subscribeRetries
        (part.bind (Value.at? ["subscribe_retries"]))
      some ⟨eventTypes, flushThreshold, subscribeRetries⟩) := by
  rcases h with rfl | ⟨es, rfl⟩
  · rfl
  · simp [Value.part, Ingest.ofValue?, Value.parts?, Value.at?, Value.entries]

theorem Sqlite.part_eq :
    Value.part Sqlite.ofValue? {} part = (do
      let path ← Value.part Value.text? ({} : Sqlite).path (part.bind (Value.at? ["path"]))
      some ⟨path⟩) := by
  rcases h with rfl | ⟨es, rfl⟩
  · rfl
  · simp [Value.part, Sqlite.ofValue?, Value.parts?, Value.at?, Value.entries]

theorem Postgres.part_eq :
    Value.part Postgres.ofValue? {} part = (do
      let uri ← Value.part Value.text? ({} : Postgres).uri (part.bind (Value.at? ["uri"]))
      let poolSize ← Value.part Value.uint32? ({} : Postgres).poolSize (part.bind (Value.at? ["pool_size"]))
      some ⟨uri, poolSize⟩) := by
  rcases h with rfl | ⟨es, rfl⟩
  · rfl
  · simp [Value.part, Postgres.ofValue?, Value.parts?, Value.at?, Value.entries]

theorem Storage.part_eq :
    Value.part Storage.ofValue? {} part = (do
      let backend ← Value.part (Value.case? backends) ({} : Storage).backend (part.bind (Value.at? ["type"]))
      let sqlite ← Value.part Sqlite.ofValue? {} (part.bind (Value.at? ["sqlite"]))
      let postgres ← Value.part Postgres.ofValue? {} (part.bind (Value.at? ["postgres"]))
      let upsert ← Value.part Value.bool? ({} : Storage).upsert (part.bind (Value.at? ["upsert"]))
      some ⟨backend, sqlite, postgres, upsert⟩) := by
  rcases h with rfl | ⟨es, rfl⟩
  · rfl
  · simp [Value.part, Storage.ofValue?, Value.parts?, Value.at?, Value.entries]

end Sections

theorem Settings.ofValue?_eq {root : Value} (h : root.Sectioned) :
    Settings.ofValue? root = Settings.ofLeaves? fun leaf => root.at? leaf.keys := by
  have hpart (keys) (hkeys : keys ∈ Leaf.sections) : root.at? keys = none ∨ ∃ es, root.at? keys = some (.table es) := by
    cases hk : root.at? keys with
    | none => exact .inl rfl
    | some w => exact .inr ((h keys hkeys w hk).imp fun _ he => by rw [he])
  have hbelow (front keys : List String) : root.at? (front ++ keys) = (root.at? front).bind (Value.at? keys) :=
    Value.at?_append front keys root
  have hwhole : Settings.ofValue? root = (do
      let ingest ← Value.part Ingest.ofValue? {} (root.at? ["ingest"])
      let storage ← Value.part Storage.ofValue? {} (root.at? ["storage"])
      some ⟨ingest, storage⟩) := by
    obtain ⟨es, rfl⟩ := h [] (by decide) root rfl
    simp [Settings.ofValue?, Value.parts?, Value.at?, Value.entries]
  rw [hwhole, Ingest.part_eq (hpart _ (by decide)), Storage.part_eq (hpart _ (by decide))]
  simp only [← hbelow, List.cons_append, List.nil_append]
  rw [Sqlite.part_eq (hpart _ (by decide)), Postgres.part_eq (hpart _ (by decide))]
  simp only [← hbelow, List.cons_append, List.nil_append]
  simp [Settings.ofLeaves?, Leaf.keys, Option.bind_assoc]

end EventIntake.Config
