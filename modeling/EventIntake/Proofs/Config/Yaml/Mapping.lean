import EventIntake.Config.Yaml.Document
import EventIntake.Proofs.Config.Merge

/-! The settings in a text have each key once in each of their tables. -/
namespace EventIntake.Config.Yaml
open Value (at?)

namespace Node

theorem ascending_entries? {ns : List (Scalar × Node)} {done es : List (String × Value)} (hdone : Sorted.Ascending done)
    (h : entries? done ns = some es) : Sorted.Ascending es := by
  induction ns generalizing done with
  | nil =>
    rw [entries?] at h
    cases h
    exact hdone
  | cons e rest ih =>
    obtain ⟨key, n⟩ := e
    cases key with
    | text key =>
      rw [entries?] at h
      obtain ⟨v, -, h⟩ := Option.bind_eq_some_iff.mp h
      exact ih (hdone.insert key v) h
    | _ => exact ih hdone (by simpa only [entries?] using h)

/-- Every value in a table is that of a node. -/
theorem exists_of_mem_entries? {ns : List (Scalar × Node)} {done es : List (String × Value)}
    (hdone : ∀ e ∈ done, ∃ n : Node, n.value? = some e.2) (h : entries? done ns = some es) :
    ∀ e ∈ es, ∃ n : Node, n.value? = some e.2 := by
  induction ns generalizing done with
  | nil =>
    rw [entries?] at h
    cases h
    exact hdone
  | cons e rest ih =>
    obtain ⟨key, n⟩ := e
    cases key with
    | text key =>
      rw [entries?] at h
      obtain ⟨v, hv, h⟩ := Option.bind_eq_some_iff.mp h
      refine ih (fun e he => ?_) h
      rcases Sorted.mem_insert he with rfl | he
      · exact ⟨n, hv⟩
      · exact hdone e he
    | _ => exact ih hdone (by simpa only [entries?] using h)

theorem exists_of_value? {n : Node} {es : List (String × Value)} (h : n.value? = some (.table es)) :
    ∃ ns, entries? [] ns = some es := by
  cases n with
  | scalar s => cases s <;> simp [value?, Scalar.value?] at h
  | list items => simp [value?] at h
  | table ns => exact ⟨ns, by simpa [value?] using h⟩

/-- The induction is on the keys: below each one the settings are those of a node again. -/
theorem ascending_at? {n : Node} {v : Value} (h : n.value? = some v) {keys : List String} {es : List (String × Value)}
    (hes : v.at? keys = some (.table es)) : Sorted.Ascending es := by
  induction keys generalizing n v with
  | nil =>
    cases hes
    obtain ⟨ns, hns⟩ := exists_of_value? h
    exact ascending_entries? .nil hns
  | cons key keys ih =>
    obtain ⟨w, hw, hbelow⟩ := Option.bind_eq_some_iff.mp hes
    cases v with
    | table inner =>
      obtain ⟨ns, hns⟩ := exists_of_value? h
      obtain ⟨m, hm⟩ := exists_of_mem_entries? (by simp) hns _ (Sorted.mem_of_find? hw)
      exact ih hm hbelow
    | _ => cases hw

end Node

theorem nodup_settings? {s : String} {entries : List (String × Value)} (h : settings? s = some entries)
    {keys : List String} {es : List (String × Value)} (hes : (Value.table entries).at? keys = some (.table es)) :
    (es.map Prod.fst).Nodup := by
  have hascending : Sorted.Ascending es := by
    obtain ⟨documents, -, h⟩ := Option.bind_eq_some_iff.mp h
    split at h
    · cases h
      cases keys with
      | nil =>
        cases hes
        exact .nil
      | cons key keys => cases hes
    · obtain ⟨⟨n, names⟩, -, h⟩ := Option.bind_eq_some_iff.mp h
      obtain ⟨v, hv, h⟩ := Option.bind_eq_some_iff.mp h
      split at h
      · cases h
        exact n.ascending_at? hv hes
      · cases h
    · cases h
  refine List.pairwise_map.mpr (hascending.imp fun {a b} hlt he => ?_)
  rw [he] at hlt
  exact Std.lt_irrefl hlt

end EventIntake.Config.Yaml
