import EventIntake.Proofs.Event.Address
import Mathlib.Data.List.DropRight

/-! The normal form of an address by its digits. -/
namespace EventIntake.Event.Address
open Text.Hex

/-! ### The digits of a normal form -/

/-- The last forty of forty zeros and the given digits. -/
def lastDigits (ds : List Char) : List Char := (List.replicate (2 * size) '0' ++ ds).rtake (2 * size)

theorem lastDigits_eq (ds : List Char) :
    lastDigits ds = List.replicate (2 * size - ds.length) '0' ++ ds.drop (ds.length - 2 * size) := by
  have hlength : (List.replicate (2 * size) '0' ++ ds).length - 2 * size = ds.length := by simp
  rw [lastDigits, List.rtake, hlength, List.drop_append, List.drop_replicate, List.length_replicate]

theorem length_lastDigits (ds : List Char) : (lastDigits ds).length = 2 * size := by
  rw [lastDigits_eq, List.length_append, List.length_replicate, List.length_drop]
  omega

/-- A zero in front changes nothing. -/
theorem lastDigits_evened (ds : List Char) : lastDigits (evened ds) = lastDigits ds := by
  rw [evened]
  split
  · have hfront : List.replicate (2 * size) '0' ++ '0' :: ds = '0' :: (List.replicate (2 * size) '0' ++ ds) := by
      rw [List.append_cons, ← List.replicate_succ', List.replicate_succ, List.cons_append]
    have hlength : (List.replicate (2 * size) '0' ++ ds).length - 2 * size = ds.length := by simp
    have hlength' : (List.replicate (2 * size) '0' ++ ds).length + 1 - 2 * size = ds.length + 1 := by
      simp
      omega
    rw [lastDigits, lastDigits, hfront, List.rtake, List.rtake, List.length_cons, hlength, hlength',
      List.drop_succ_cons]
  · rfl

theorem lastDigits_map_toLower (ds : List Char) : lastDigits (ds.map Char.toLower) = (lastDigits ds).map Char.toLower := by
  rw [lastDigits_eq, lastDigits_eq, List.map_append, List.map_replicate, List.length_map, List.map_drop]
  rfl

theorem isDigit_lastDigits {ds : List Char} (h : ∀ c ∈ ds, IsDigit c) : ∀ c ∈ lastDigits ds, IsDigit c := by
  rw [lastDigits_eq, List.forall_mem_append]
  exact ⟨fun c hc => List.eq_of_mem_replicate hc ▸ by decide, fun c hc => h c (List.mem_of_mem_drop hc)⟩

theorem isDigit_evened {ds : List Char} : (∀ c ∈ evened ds, IsDigit c) ↔ ∀ c ∈ ds, IsDigit c := by
  have hzero : IsDigit '0' := by decide
  rw [evened]
  split
  · simp [hzero]
  · exact Iff.rfl

theorem length_evened (ds : List Char) : (evened ds).length % 2 = 0 := by
  rw [evened]
  split
  · rw [List.length_cons]
    omega
  · omega

/-- Fitting bytes is cutting or padding their digits. -/
theorem encode_fit (bytes : List UInt8) : encode (fit bytes) = lastDigits (encode bytes) := by
  rw [fit, encode_append, encode_zeros, encode_drop, lastDigits_eq, length_encode, Nat.mul_sub, Nat.mul_sub]

theorem normalize_of_digits {raw : String} (h : ∀ c ∈ digits raw, IsDigit c) :
    normalize raw = String.ofList ('0' :: 'x' :: (lastDigits (digits raw)).map Char.toLower) := by
  obtain ⟨bytes, hdecode, hencode⟩ := exists_decode (isDigit_evened.mpr h) (length_evened (digits raw))
  have hfit : encode (fit bytes) = (lastDigits (digits raw)).map Char.toLower := by
    rw [encode_fit, hencode, lastDigits_map_toLower, lastDigits_evened]
  simp only [normalize, hdecode, hfit]

theorem normalize_of_other {raw : String} (h : ¬ ∀ c ∈ digits raw, IsDigit c) : normalize raw = raw := by
  simp only [normalize, decode_eq_none fun he => h (isDigit_evened.mp he)]

/-! ### Equal normal forms -/

theorem normalize_eq_iff {raw other : String} (h : ∀ c ∈ digits raw, IsDigit c) (h' : ∀ c ∈ digits other, IsDigit c) :
    normalize raw = normalize other ↔
      (lastDigits (digits raw)).map Char.toLower = (lastDigits (digits other)).map Char.toLower := by
  rw [normalize_of_digits h, normalize_of_digits h', String.ofList_inj]
  simp

theorem value_lastDigits {ds : List Char} (h : ∀ c ∈ ds, IsDigit c) : value (lastDigits ds) = value ds % 16 ^ (2 * size) := by
  have hlt := value_lt (isDigit_lastDigits h)
  have hzeros : value (List.replicate (2 * size) '0') = 0 := by decide
  have hsplit : value ((List.replicate (2 * size) '0' ++ ds).rdrop (2 * size) ++ lastDigits ds) = value ds := by
    rw [lastDigits, List.rdrop, List.rtake, List.take_append_drop, value_append, hzeros, Nat.zero_mul, Nat.zero_add]
  rw [length_lastDigits] at hlt
  rw [← hsplit, value_append, length_lastDigits, Nat.mul_add_mod', Nat.mod_eq_of_lt hlt]

/-- Addresses in digits have the same normal form just if their numbers agree in the bytes that an address has. -/
theorem normalize_eq_iff_value {raw other : String} (h : ∀ c ∈ digits raw, IsDigit c)
    (h' : ∀ c ∈ digits other, IsDigit c) :
    normalize raw = normalize other ↔
      value (digits raw) % 16 ^ (2 * size) = value (digits other) % 16 ^ (2 * size) := by
  have hlast := isDigit_lastDigits h
  have hlast' := isDigit_lastDigits h'
  rw [normalize_eq_iff h h', ← value_lastDigits h, ← value_lastDigits h']
  constructor
  · intro he
    rw [← value_map_toLower hlast, he, value_map_toLower hlast']
  · exact map_toLower_of_value hlast hlast' (by rw [length_lastDigits, length_lastDigits])

/-! ### Places in the bytes -/

/-- The items from a place on, which must not lie behind the end. -/
def from? {α : Type} (start : Nat) (l : List α) : Option (List α) :=
  if start ≤ l.length then some (l.drop start) else none

/-- The list with its items from a place on overwritten by as many others. -/
def overwrite? {α : Type} (start : Nat) (new l : List α) : Option (List α) :=
  if start ≤ l.length ∧ new.length = l.length - start then some (l.take start ++ new) else none

/-- A difference that must not be negative. -/
def minus? (m n : Nat) : Option Nat := if n ≤ m then some (m - n) else none

/-- As `fit`, where a place out of range gives no result. -/
def fit? (bytes : List UInt8) : Option (List UInt8) := do
  let tail ← from? (bytes.length - size) bytes
  let start ← minus? size tail.length
  overwrite? start tail (List.replicate size 0)

/-- As `normalize`, where a place out of range gives no result. -/
def normalize? (raw : String) : Option String :=
  match decode (evened (digits raw)) with
  | some bytes => (fit? bytes).map fun fitted => String.ofList ('0' :: 'x' :: encode fitted)
  | none => some raw

theorem fit?_eq (bytes : List UInt8) : fit? bytes = some (fit bytes) := by
  have htail : from? (bytes.length - size) bytes = some (bytes.drop (bytes.length - size)) := if_pos (Nat.sub_le _ _)
  have hlength : (bytes.drop (bytes.length - size)).length = min bytes.length size := by
    rw [List.length_drop]
    omega
  have hstart : minus? size (min bytes.length size) = some (size - bytes.length) := by
    rw [minus?, if_pos (Nat.min_le_right _ _)]
    congr 1
    omega
  have hwritten : overwrite? (size - bytes.length) (bytes.drop (bytes.length - size)) (List.replicate size 0) =
      some (fit bytes) := by
    rw [overwrite?, hlength, List.length_replicate, if_pos (by omega), List.take_replicate, fit,
      Nat.min_eq_left (Nat.sub_le _ _)]
  simp only [fit?, htail, hlength, hstart, hwritten, Option.bind_eq_bind, Option.bind_some]

theorem normalize?_eq (raw : String) : normalize? raw = some (normalize raw) := by
  rw [normalize?, normalize]
  cases decode (evened (digits raw)) with
  | none => rfl
  | some bytes => simp only [fit?_eq, Option.map_some]

/-! ### The law of normal forms -/

/-- With one `0x` left out, text of digits has the normal form of `0x` and its last forty digits in lower case, zeros
in front counted in, and any other text is its own. So normal forms stay, addresses in digits share one just if these
digits agree but for their case, and addresses of at most twenty bytes with different numbers never do. No place in the
bytes is out of range. -/
theorem normal_form_of_digits :
    (∀ raw, (∀ c ∈ digits raw, IsDigit c) →
      normalize raw = String.ofList ('0' :: 'x' :: (lastDigits (digits raw)).map Char.toLower)) ∧
    (∀ raw, (∃ c ∈ digits raw, ¬ IsDigit c) → normalize raw = raw) ∧
    (∀ raw, normalize (normalize raw) = normalize raw) ∧
    (∀ raw other, (∀ c ∈ digits raw, IsDigit c) → (∀ c ∈ digits other, IsDigit c) →
      (normalize raw = normalize other ↔
        (lastDigits (digits raw)).map Char.toLower = (lastDigits (digits other)).map Char.toLower) ∧
      ((digits raw).length ≤ 2 * size → (digits other).length ≤ 2 * size → value (digits raw) ≠ value (digits other) →
        normalize raw ≠ normalize other)) ∧
    ∀ raw, normalize? raw = some (normalize raw) := by
  refine ⟨fun raw => normalize_of_digits, fun raw ⟨c, hc, hother⟩ => normalize_of_other fun h => hother (h c hc),
    normalize_normalize, fun raw other h h' => ⟨normalize_eq_iff h h', ?_⟩, normalize?_eq⟩
  intro hlength hlength' hne he
  have hlt := (value_lt h).trans_le (Nat.pow_le_pow_right (by decide) hlength)
  have hlt' := (value_lt h').trans_le (Nat.pow_le_pow_right (by decide) hlength')
  rw [normalize_eq_iff_value h h', Nat.mod_eq_of_lt hlt, Nat.mod_eq_of_lt hlt'] at he
  exact hne he

/-- A long address is cut to the one of its end, and two short ones stay apart. -/
theorem one_cut_two_apart :
    let long := "0XFFabcdefabcdefabcdefabcdefabcdefabcdefABCD"
    let short := "abcdefabcdefabcdefabcdefabcdefabcdefABCD"
    (normalize long = normalize short ↔
      (lastDigits (digits long)).map Char.toLower = (lastDigits (digits short)).map Char.toLower) ∧
    normalize long = normalize short ∧ normalize "0x1" ≠ normalize "10" ∧ normalize "0x0x1" = "0x0x1" := by
  obtain ⟨-, hother, -, hshare, -⟩ := normal_form_of_digits
  have hdigits {ds : List Char} (h : (ds.all fun c => IsDigit c) = true) : ∀ c ∈ ds, IsDigit c := fun c hc =>
    of_decide_eq_true (List.all_eq_true.mp h c hc)
  have hagree := (hshare "0XFFabcdefabcdefabcdefabcdefabcdefabcdefABCD" "abcdefabcdefabcdefabcdefabcdefabcdefABCD"
    (hdigits (by decide)) (hdigits (by decide))).1
  have hapart := (hshare "0x1" "10" (hdigits (by decide)) (hdigits (by decide))).2 (by decide) (by decide) (by decide)
  exact ⟨hagree, hagree.mpr (by decide), hapart, hother "0x0x1" ⟨'x', by decide, by decide⟩⟩

end EventIntake.Event.Address
