import EventIntake.Event.Owner
import EventIntake.Proofs.Json.RoundTrip

/-! Owners are read back from their text. -/
namespace EventIntake.Event
open Json

/-- The members of the kinds that are set, as values. -/
def OwnerKind.entries (k : OwnerKind) : List (String × Value) :=
  let text (name : String) (v : Option String) := v.toList.map fun s => (name, Value.text s)
  text "AddressOwner" k.addressOwner ++ text "ObjectOwner" k.objectOwner ++ text "SingleOwner" k.singleOwner ++
    k.shared.toList.map fun v => ("Shared", .object [("initial_shared_version", .number (.whole v.toNat))])

theorem OwnerKind.writeObject_entries (k : OwnerKind) : Value.writeObject k.entries = k.members := by
  obtain ⟨address, object, single, shared⟩ := k
  cases address <;> cases object <;> cases single <;> cases shared <;> rfl

theorem OwnerKind.text?_map (o : Option String) : text? (o.map .text) = some o := by
  cases o <;> rfl

theorem OwnerKind.sole?_singleton (key : String) (v : Value) : sole? key [(key, v)] = some (some v) := by
  simp [sole?]

theorem OwnerKind.shared?_map (o : Option UInt64) :
    shared? (o.map fun v => .object [("initial_shared_version", .number (.whole v.toNat))]) = some o := by
  cases o with
  | none => rfl
  | some v =>
    have hfits : 0 ≤ (v.toNat : Int) ∧ (v.toNat : Int) < UInt64.size :=
      ⟨Int.natCast_nonneg _, by exact_mod_cast v.toNat_lt⟩
    have hversion : version? (some (.number (.whole v.toNat))) = some v := by
      rw [version?, if_pos hfits, Int.toNat_natCast, UInt64.ofNat_toNat]
    rw [Option.map_some, shared?, sole?_singleton, Option.bind_eq_bind, Option.bind_eq_bind, Option.bind_some, hversion]
    rfl

/-- Each kind is under its own key. -/
theorem OwnerKind.sole?_entries (k : OwnerKind) :
    sole? "AddressOwner" k.entries = some (k.addressOwner.map .text) ∧
    sole? "ObjectOwner" k.entries = some (k.objectOwner.map .text) ∧
    sole? "SingleOwner" k.entries = some (k.singleOwner.map .text) ∧
    sole? "Shared" k.entries =
      some (k.shared.map fun v => .object [("initial_shared_version", .number (.whole v.toNat))]) := by
  obtain ⟨address, object, single, shared⟩ := k
  cases address <;> cases object <;> cases single <;> cases shared <;> exact ⟨rfl, rfl, rfl, rfl⟩

theorem OwnerKind.ofMembers?_entries (k : OwnerKind) : ofMembers? k.entries = some k := by
  obtain ⟨haddress, hobject, hsingle, hshared⟩ := k.sole?_entries
  simp [ofMembers?, haddress, hobject, hsingle, hshared, text?_map, shared?_map]

namespace Owner

/-- The value that an owner is written as. -/
def value : Owner → Value
  | .named name => .text name
  | .owned kind => .object kind.entries

theorem write_value (o : Owner) : o.value.write = o.write := by
  cases o with
  | named name => rfl
  | owned kind => rw [value, Value.write, kind.writeObject_entries, write]

theorem ofValue?_value (o : Owner) : ofValue? o.value = some o := by
  cases o with
  | named name => rfl
  | owned kind => simp [value, ofValue?, kind.ofMembers?_entries]

theorem readable_value (o : Owner) (depth : Nat) : Value.Readable .asWritten (depth + 2) o.value := by
  cases o with
  | named name => exact .text name
  | owned kind =>
    refine .object (fun m hm => ?_) trivial
    simp only [OwnerKind.entries, List.mem_append, List.mem_map] at hm
    rcases hm with ((⟨s, _, rfl⟩ | ⟨s, _, rfl⟩) | ⟨s, _, rfl⟩) | ⟨v, _, rfl⟩
    · exact .text s
    · exact .text s
    · exact .text s
    · have hlow : Int64.minValue.toInt ≤ v.toNat := Int.le_trans (by decide) (Int.natCast_nonneg _)
      have hhigh : (v.toNat : Int) < UInt64.size := by exact_mod_cast v.toNat_lt
      exact .object (by simpa using .number hlow hhigh) trivial

theorem codec_rereads (o : Owner) (depth : Nat) : codec.Rereads (depth + 2) o := by
  rintro before cs rest hb rfl hr
  have hread := (o.readable_value depth).rereads before rest hb hr
  rw [write_value] at hread
  refine bind_ok.mpr ⟨_, hread, ?_⟩
  simp [ofValue?_value]

theorem write_inj {o o' : Owner} (h : o.write = o'.write) : o = o' := by
  have hread := o.codec_rereads 0 [] _ [] blanks_nil rfl apart_nil
  have hread' := o'.codec_rereads 0 [] _ [] blanks_nil rfl apart_nil
  have hwrite : codec.write o = codec.write o' := h
  rw [hwrite] at hread
  cases hread.symm.trans hread'
  rfl

theorem write_ne_nil (o : Owner) : o.write ≠ [] := by
  obtain ⟨c, cs, hwrite, _⟩ := (o.readable_value 0).opens
  rw [← write_value, hwrite]
  exact List.cons_ne_nil c cs

/-- The text of an owner tells it apart from all others and from none. -/
theorem text_injective : Function.Injective text := by
  intro o o' h
  cases o with
  | none =>
    cases o' with
    | none => rfl
    | some owner => exact absurd (String.ofList_inj.mp h).symm owner.write_ne_nil
  | some owner =>
    cases o' with
    | none => exact absurd (String.ofList_inj.mp h) owner.write_ne_nil
    | some owner' => rw [write_inj (String.ofList_inj.mp h)]

end Owner

end EventIntake.Event
