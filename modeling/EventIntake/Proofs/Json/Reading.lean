import EventIntake.Json.Codec
import EventIntake.Proofs.Json.Items
import EventIntake.Proofs.Json.Raw
import EventIntake.Proofs.Json.Record
import EventIntake.Proofs.Sorted
import EventIntake.Proofs.Text.ByteOrder
import Mathlib.Data.List.Induction

/-! The values that codecs make of well-formed texts. -/
namespace EventIntake.Json
open Decimal Grammar

namespace Codec
variable {α β : Type}

/-- A codec makes `a` of any text of the shape. -/
def Reads (c : Codec α) (depth : Nat) (shape : Shape) (a : α) : Prop :=
  ∀ before cs rest, Blanks before → shape cs → Apart rest → c.read depth (before ++ (cs ++ rest)) = .ok (a, rest)

theorem decode_reads {c : Codec α} {shape : Shape} {a : α} (h : c.Reads maxDepth shape a) {s : String}
    (hs : Padded shape s.toList) : c.decode s = .ok a := by
  obtain ⟨before, inside, after, hbefore, hinside, hafter, he⟩ := hs
  have hread := h before inside after hbefore hinside (List.append_nil after ▸ hafter.apart apart_nil)
  simp only [decode, finish, he, hread, bind, Except.bind, skipBlank_blanks hafter]

theorem afterBlank_cons {read : Reader α} {blanks : List Char} (hb : Blanks blanks) {c : Char}
    (hc : isBlank c = false) (cs : List Char) : afterBlank read (blanks ++ c :: cs) = read (c :: cs) := by
  rw [afterBlank, skipBlank_append hb, skipBlank_cons hc]

theorem Reads.map {c : Codec α} {depth : Nat} {shape : Shape} {a : α} (h : c.Reads depth shape a) (f : α → β)
    (back : β → α) : (c.map f back).Reads depth shape (f a) := by
  intro before cs rest hb hcs hr
  simp only [Codec.map, h before cs rest hb hcs hr]
  rfl

theorem text_reads (s : String) (depth : Nat) : text.Reads depth (TextOf s) s := by
  rintro before cs rest hb ⟨body, hbody, rfl⟩ _
  rw [List.cons_append, List.append_assoc, List.singleton_append]
  exact (afterBlank_cons hb rfl _).trans (hbody.text rest)

theorem integer_reads {want : String} {low high n : Int} (hn : low ≤ n ∧ n ≤ high)
    (hword : Int64.minValue.toInt ≤ n ∧ n < UInt64.size) (depth : Nat) :
    (integer want low high).Reads depth (· = (toString n).toList) n := by
  rintro before cs rest hb rfl hr
  have hread := number_toString hword.1 hword.2 hr
  obtain ⟨c, digits, hs, hc⟩ := (numeral_toString n).head
  have hblank : isBlank c = false := by
    rcases hc with rfl | hc
    · rfl
    · exact isBlank_digit hc
  rw [hs, List.cons_append] at hread ⊢
  refine (afterBlank_cons hb hblank _).trans ?_
  simp only [if_pos hc, hread, bind, Except.bind, if_pos hn]

theorem int64_reads (n : Int64) (depth : Nat) : int64.Reads depth (· = (toString n.toInt).toList) n := by
  have hlow := n.le_toInt
  have hhigh := n.toInt_lt
  have hsize : UInt64.size = 2 ^ 64 := rfl
  have hmin : Int64.minValue.toInt = -2 ^ 63 := rfl
  have hmax : Int64.maxValue.toInt = 2 ^ 63 - 1 := rfl
  have hread : (integer "i64" Int64.minValue.toInt Int64.maxValue.toInt).Reads depth (· = (toString n.toInt).toList)
      n.toInt :=
    integer_reads (by omega) (by omega) depth
  have hmap := hread.map Int64.ofInt Int64.toInt
  rwa [Int64.ofInt_toInt] at hmap

theorem uint64_reads (n : UInt64) (depth : Nat) : uint64.Reads depth (· = (toString n.toNat).toList) n := by
  have hhigh := n.toNat_lt
  have hsize : UInt64.size = 2 ^ 64 := rfl
  have hmin : Int64.minValue.toInt = -2 ^ 63 := rfl
  have hread : (integer "u64" 0 (UInt64.size - 1 : Nat)).Reads depth (· = (toString (n.toNat : Int)).toList) n.toNat :=
    integer_reads (by omega) (by omega) depth
  have hmap := hread.map (fun n => UInt64.ofNat n.toNat) fun n => (n.toNat : Int)
  rwa [Int.toNat_natCast, UInt64.ofNat_toNat] at hmap

/-! ### Objects kept as text -/

/-- The texts of members, as characters. -/
def spellings (ms : List (String × String)) : List (String × List Char) := ms.map fun m => (m.1, m.2.toList)

/-- Texts by key, the last of equal keys kept. -/
def byKey (ms : List (String × String)) : List (String × String) :=
  ms.foldl (fun kept m => Sorted.insert m.1 m.2 kept) []

/-- Reads the text of a member and keeps it under its key. -/
def keepText (kept : List (String × String)) (name : String) : Reader (List (String × String)) := fun cs => do
  let (v, cs) ← Raw.read (← colon cs)
  .ok (Sorted.insert name v kept, cs)

theorem keepText_takes (m : String × String) (hm : Valid m.2.toList) (kept : List (String × String)) :
    Takes keepText (m.1, (· = m.2.toList)) kept (Sorted.insert m.1 m.2 kept) := by
  rintro gap before value rest hgap hbefore rfl hr
  simp only [keepText, colon_blanks hgap, Raw.read_valid hbefore hm hr, bind, Except.bind, String.ofList_toList]

theorem keepText_takesAll {ms : List (String × String)} (hms : ∀ m ∈ ms, Valid m.2.toList)
    (kept : List (String × String)) :
    TakesAll keepText (verbatim (spellings ms)) kept (ms.foldl (fun kept m => Sorted.insert m.1 m.2 kept) kept) := by
  induction ms generalizing kept with
  | nil => exact .nil
  | cons m ms ih =>
    obtain ⟨hm, hms⟩ := List.forall_mem_cons.mp hms
    exact .cons (keepText_takes m hm kept) (ih hms _)

theorem rawMembers_reads {ms : List (String × String)} (hms : ∀ m ∈ ms, Valid m.2.toList) (depth : Nat) :
    rawMembers.Reads (depth + 1) (Object (verbatim (spellings ms))) (byKey ms) := by
  intro before cs rest hb hcs hr
  obtain ⟨inside, rfl, hread⟩ := membersUpTo_object hcs (keepText_takesAll hms [])
  refine (afterBlank_cons hb rfl _).trans ?_
  exact bind_ok.mpr ⟨_, hread rest, rfl⟩

theorem byKey_concat (ms : List (String × String)) (m : String × String) :
    byKey (ms ++ [m]) = Sorted.insert m.1 m.2 (byKey ms) := by
  rw [byKey, List.foldl_append]
  rfl

theorem ascending_byKey (ms : List (String × String)) : Sorted.Ascending (byKey ms) := by
  induction ms using List.reverseRecOn with
  | nil => exact .nil
  | append_singleton ms m ih =>
    rw [byKey_concat]
    exact ih.insert m.1 m.2

/-- Each key keeps the text that it had last. -/
theorem mem_byKey_iff {ms : List (String × String)} {key text : String} :
    (key, text) ∈ byKey ms ↔ ∃ before after, ms = before ++ (key, text) :: after ∧ key ∉ after.map Prod.fst := by
  induction ms using List.reverseRecOn with
  | nil => simp [byKey]
  | append_singleton ms m ih =>
    rw [byKey_concat, (ascending_byKey ms).mem_insert_iff, ih]
    obtain ⟨k, t⟩ := m
    constructor
    · rintro (⟨⟨⟩⟩ | ⟨⟨before, after, rfl, hafter⟩, hkey⟩)
      · exact ⟨ms, [], rfl, by simp⟩
      · refine ⟨before, after ++ [(k, t)], by simp, ?_⟩
        simpa [hkey] using hafter
    · rintro ⟨before, after, he, hafter⟩
      rcases List.eq_nil_or_concat after with rfl | ⟨after, last, rfl⟩
      · exact .inl (List.singleton_inj.mp (List.append_inj_right' he rfl)).symm
      · rw [List.concat_eq_append] at he hafter
        rw [← List.cons_append, ← List.append_assoc] at he
        obtain ⟨rfl, hlast⟩ := List.append_inj' he rfl
        obtain rfl := List.singleton_inj.mp hlast
        simp only [List.map_append, List.mem_append, not_or, List.map_singleton, List.mem_singleton] at hafter
        exact .inr ⟨⟨before, after, rfl, hafter.1⟩, hafter.2⟩

theorem byKey_ne_nil {ms : List (String × String)} (h : ms ≠ []) : byKey ms ≠ [] := by
  rcases List.eq_nil_or_concat ms with rfl | ⟨ms, m, rfl⟩
  · exact absurd rfl h
  · have hlast : m ∈ byKey (ms.concat m) := mem_byKey_iff.mpr ⟨ms, [], List.concat_eq_append, by simp⟩
    exact List.ne_nil_of_mem hlast

theorem mem_byKey_of_nodup {ms : List (String × String)} (h : (ms.map Prod.fst).Nodup) {m : String × String} :
    m ∈ byKey ms ↔ m ∈ ms := by
  obtain ⟨key, text⟩ := m
  rw [mem_byKey_iff]
  constructor
  · rintro ⟨before, after, rfl, _⟩
    simp
  · intro hm
    obtain ⟨before, after, rfl⟩ := List.append_of_mem hm
    rw [List.map_append, List.map_cons] at h
    exact ⟨before, after, rfl, (List.nodup_cons.mp (List.nodup_append.mp h).2.1).1⟩

/-- The order of members with different keys is without meaning. -/
theorem byKey_perm {ms ms' : List (String × String)} (hp : ms.Perm ms') (h : (ms.map Prod.fst).Nodup) :
    byKey ms = byKey ms' := by
  have h' : (ms'.map Prod.fst).Nodup := (hp.map Prod.fst).nodup_iff.mp h
  refine (ascending_byKey ms).ext (ascending_byKey ms') fun key => Option.ext fun text => ?_
  rw [(ascending_byKey ms).find?_eq_some_iff, (ascending_byKey ms').find?_eq_some_iff, mem_byKey_of_nodup h,
    mem_byKey_of_nodup h', hp.mem_iff]

end Codec

end EventIntake.Json
