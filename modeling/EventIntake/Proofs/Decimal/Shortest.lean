import EventIntake.Decimal.Shortest
import Mathlib.Algebra.Order.Field.Power
import Mathlib.Algebra.Order.Field.Rat
import Mathlib.Data.Nat.Cast.Order.Field
import Mathlib.Tactic.Linarith
import Mathlib.Tactic.Positivity
import Mathlib.Tactic.Ring
import Mathlib.Tactic.SplitIfs

/-! The shortest decimal of a binary64 number lies between its halfway points to the neighbours. No decimal does so for
two numbers, so the shortest one tells them apart. -/
namespace EventIntake.Decimal

/-- The number that a decimal stands for. -/
def Scientific.value (s : Scientific) : ℚ := s.digits * 10 ^ s.exponent

theorem Scientific.value_trim (fuel : Nat) (s : Scientific) : (trim fuel s).value = s.value := by
  induction fuel generalizing s with
  | zero => rfl
  | succ fuel ih =>
    rw [trim]
    split
    · rename_i h
      have hdigits : s.digits = s.digits / 10 * 10 := by omega
      rw [ih, value, value, zpow_add_one₀ (by norm_num)]
      conv_rhs => rw [hdigits]
      push_cast
      ring
    · rfl

namespace Binary64

/-! ### What rounds to a number -/

/-- A quarter of the last place. -/
def quarter (x : Binary64) : ℚ := 2 ^ (x.exponent - 2)

/-- Halfway to the number below. -/
def low (x : Binary64) : ℚ := x.quarters.2.1 * x.quarter

/-- Halfway to the number above. -/
def high (x : Binary64) : ℚ := x.quarters.2.2 * x.quarter

/-- What lies between the halfway points. They count if the mantissa is even. -/
def Near (x : Binary64) (r : ℚ) : Prop :=
  if x.mantissa % 2 = 0 then x.low ≤ r ∧ r ≤ x.high else x.low < r ∧ r < x.high

theorem quarter_pos (x : Binary64) : 0 < x.quarter := zpow_pos (by norm_num) _

theorem mantissa_mod_two (x : Binary64) : x.mantissa % 2 = x.ordinal % 2 := by
  rw [mantissa]
  split
  · rfl
  · simp only [hidden]
    omega

/-- Small numbers have no leading bit. -/
theorem place (x : Binary64) :
    (x.ordinal < hidden ∧ x.mantissa = x.ordinal ∧ x.exponent = -1074) ∨
      (hidden ≤ x.ordinal ∧ x.mantissa = hidden + x.ordinal % hidden ∧
        x.exponent = ((x.ordinal / hidden : Nat) : Int) - 1075) := by
  rw [mantissa, exponent]
  split
  · exact .inl ⟨‹_›, rfl, rfl⟩
  · exact .inr ⟨Nat.not_lt.mp ‹_›, rfl, rfl⟩

/-- Below a power of two the step is half as wide, but not for the smallest. -/
theorem quarters_below (x : Binary64) :
    (x.quarters.2.1 = 4 * x.mantissa - 1 ∧ x.mantissa = hidden ∧ -1074 < x.exponent) ∨
      (x.quarters.2.1 = 4 * x.mantissa - 2 ∧ ¬(x.mantissa = hidden ∧ -1074 < x.exponent)) := by
  by_cases h : x.mantissa = hidden ∧ -1074 < x.exponent
  · exact .inl ⟨by simp only [quarters, if_pos h], h⟩
  · exact .inr ⟨by simp only [quarters, if_neg h], h⟩

/-- The place of a mantissa stays, or it doubles and the mantissa starts again. -/
theorem quarters_succ {x y : Binary64} (h : y.ordinal = x.ordinal + 1) :
    (y.exponent = x.exponent ∧ y.quarters.2.1 = x.quarters.2.2) ∨
      (y.exponent = x.exponent + 1 ∧ 2 * y.quarters.2.1 = x.quarters.2.2) := by
  have hx := x.place
  have hy := y.place
  have hhigh : x.quarters.2.2 = 4 * x.mantissa + 2 := rfl
  have hlow := y.quarters_below
  simp only [hidden] at hx hy hlow
  omega

/-- A number ends where the next begins. -/
theorem high_eq_low {x y : Binary64} (h : y.ordinal = x.ordinal + 1) : x.high = y.low := by
  rcases quarters_succ h with ⟨he, hq⟩ | ⟨he, hq⟩
  · rw [high, low, quarter, quarter, he, hq]
  · have hexponent : y.exponent - 2 = x.exponent - 2 + 1 := by omega
    rw [high, low, quarter, quarter, hexponent, zpow_add_one₀ (by norm_num), ← hq]
    push_cast
    ring

theorem low_lt_high (x : Binary64) : x.low < x.high := by
  refine mul_lt_mul_of_pos_right ?_ x.quarter_pos
  have hquarters : x.quarters.2.1 < x.quarters.2.2 := by
    simp only [quarters]
    omega
  exact_mod_cast hquarters

theorem high_le_low {x y : Binary64} (h : x.ordinal < y.ordinal) :
    x.high ≤ y.low ∧ (x.ordinal + 1 ≠ y.ordinal → x.high < y.low) := by
  obtain ⟨k, hk⟩ := Nat.exists_eq_add_of_lt h
  induction k generalizing y with
  | zero =>
    have hsame := high_eq_low (x := x) (y := y) (by omega)
    exact ⟨hsame.le, fun hne => absurd (by omega) hne⟩
  | succ k ih =>
    let z : Binary64 := ⟨false, x.ordinal + k + 1, by have := y.finite; omega⟩
    have hbelow : x.high ≤ z.low := (ih (y := z) (by simp only [z]; omega) rfl).1
    have habove : z.high = y.low := high_eq_low (by simp only [z]; omega)
    have hlt : x.high < y.low := hbelow.trans_lt (habove ▸ z.low_lt_high)
    exact ⟨hlt.le, fun _ => hlt⟩

theorem Near.low_le {x : Binary64} {r : ℚ} (h : x.Near r) : x.low ≤ r := by
  rw [Near] at h
  split at h
  · exact h.1
  · exact h.1.le

theorem Near.le_high {x : Binary64} {r : ℚ} (h : x.Near r) : r ≤ x.high := by
  rw [Near] at h
  split at h
  · exact h.2
  · exact h.2.le

/-- Of two numbers that share a halfway point, one is odd. -/
theorem Near.not_lt {x y : Binary64} {r : ℚ} (hx : x.Near r) (hy : y.Near r) : ¬x.ordinal < y.ordinal := by
  intro h
  obtain ⟨hle, hlt⟩ := high_le_low h
  have hhigh : r = x.high := le_antisymm hx.le_high (hle.trans hy.low_le)
  have hlow : r = y.low := le_antisymm (hhigh.le.trans hle) hy.low_le
  have hnext : x.ordinal + 1 = y.ordinal := by
    by_contra hne
    exact absurd (hhigh ▸ hlow) (hlt hne).ne
  rw [Near, mantissa_mod_two] at hx hy
  by_cases heven : x.ordinal % 2 = 0
  · rw [if_neg (by omega)] at hy
    exact hy.1.ne hlow.symm
  · rw [if_neg heven] at hx
    exact hx.2.ne hhigh

theorem Near.ordinal_eq {x y : Binary64} {r : ℚ} (hx : x.Near r) (hy : y.Near r) : x.ordinal = y.ordinal :=
  Nat.le_antisymm (Nat.not_lt.mp (hy.not_lt hx)) (Nat.not_lt.mp (hx.not_lt hy))

/-! ### The search for digits -/

/-- The unit of a grid as a whole number. -/
def unit (x : Binary64) (p : Int) : Nat := Nat.pow 10 p.toNat * Nat.pow 2 (-(x.exponent - 2)).toNat

/-- A quarter of the last place, over the denominator of the unit. -/
def step (x : Binary64) (p : Int) : Nat := Nat.pow 2 (x.exponent - 2).toNat * Nat.pow 10 (-p).toNat

theorem zpow_mul_pow {b : ℚ} (hb : b ≠ 0) (z : Int) : b ^ z * b ^ (-z).toNat = b ^ z.toNat := by
  rw [← zpow_natCast, ← zpow_natCast, ← zpow_add₀ hb]
  congr 1
  omega

theorem exists_denominator (x : Binary64) (p : Int) :
    ∃ d : ℚ, 0 < d ∧ x.quarter * d = x.step p ∧ 10 ^ p * d = x.unit p := by
  have hquarter : x.quarter * 2 ^ (-(x.exponent - 2)).toNat = 2 ^ (x.exponent - 2).toNat :=
    zpow_mul_pow (by norm_num) _
  have hten : (10 : ℚ) ^ p * 10 ^ (-p).toNat = 10 ^ p.toNat := zpow_mul_pow (by norm_num) p
  refine ⟨2 ^ (-(x.exponent - 2)).toNat * 10 ^ (-p).toNat, by positivity, ?_, ?_⟩
  · rw [← mul_assoc, hquarter]
    simp [step]
  · rw [mul_comm (2 ^ _), ← mul_assoc, hten]
    simp [unit]

theorem quarters_le_iff (x : Binary64) (p : Int) (a c : Nat) :
    a * x.quarter ≤ c * 10 ^ p ↔ a * x.step p ≤ c * x.unit p := by
  obtain ⟨d, hd, hstep, hunit⟩ := x.exists_denominator p
  rw [← mul_le_mul_iff_of_pos_right hd, mul_assoc, mul_assoc, hstep, hunit]
  exact_mod_cast Iff.rfl

theorem le_quarters_iff (x : Binary64) (p : Int) (a c : Nat) :
    c * 10 ^ p ≤ a * x.quarter ↔ c * x.unit p ≤ a * x.step p := by
  obtain ⟨d, hd, hstep, hunit⟩ := x.exists_denominator p
  rw [← mul_le_mul_iff_of_pos_right hd, mul_assoc, mul_assoc, hstep, hunit]
  exact_mod_cast Iff.rfl

/-- Whether a multiple of the unit lies between the halfway points. -/
def fits (x : Binary64) (p : Int) (c : Nat) : Bool :=
  if x.mantissa % 2 = 0 then
    x.quarters.2.1 * x.step p ≤ c * x.unit p && c * x.unit p ≤ x.quarters.2.2 * x.step p
  else x.quarters.2.1 * x.step p < c * x.unit p && c * x.unit p < x.quarters.2.2 * x.step p

theorem fits_iff (x : Binary64) (p : Int) (c : Nat) : x.fits p c = true ↔ x.Near (c * 10 ^ p) := by
  simp only [fits, Near, low, high, ← not_le, quarters_le_iff, le_quarters_iff]
  split <;> simp

/-- The greatest multiple of the unit that is not above the number. -/
def floor (x : Binary64) (p : Int) : Nat := x.quarters.1 * x.step p / x.unit p

/-- The nearer of the multiples around the number, the even one of two equally near. -/
def nearer (x : Binary64) (p : Int) : Nat :=
  let gap := 2 * (x.quarters.1 * x.step p % x.unit p)
  if gap < x.unit p ∨ gap = x.unit p ∧ x.floor p % 2 = 0 then x.floor p else x.floor p + 1

def farther (x : Binary64) (p : Int) : Nat := if x.nearer p = x.floor p then x.floor p + 1 else x.floor p

theorem onGrid?_eq (x : Binary64) (p : Int) :
    x.onGrid? p =
      if x.fits p (x.nearer p) then some (x.nearer p)
      else if x.fits p (x.farther p) then some (x.farther p) else none :=
  rfl

theorem near_of_onGrid? {x : Binary64} {p : Int} {c : Nat} (h : x.onGrid? p = some c) : x.Near (c * 10 ^ p) := by
  rw [onGrid?_eq] at h
  rw [← fits_iff]
  split_ifs at h with hnearer hfarther
  · cases h
    exact hnearer
  · cases h
    exact hfarther

theorem mantissa_pos {x : Binary64} (h : x.isZero = false) : 0 < x.mantissa := by
  have hordinal : x.ordinal ≠ 0 := by simpa [isZero] using h
  have hplace := x.place
  simp only [hidden] at hplace
  omega

/-- The distance to the halfway point below, and a bound on it and on the unit. -/
theorem exists_below {x : Binary64} (hx : x.isZero = false) {p : Int}
    (hp : 10 ^ 16 * x.unit p ≤ x.quarters.1 * x.step p) :
    ∃ below, x.quarters.2.1 * x.step p + below = x.quarters.1 * x.step p ∧ x.unit p < 2 * below ∧
      below ≤ 2 * x.step p := by
  have hmid : x.quarters.1 = 4 * x.mantissa := rfl
  have hplace := x.place
  have hpos := mantissa_pos hx
  have hstep : 0 < x.step p := Nat.mul_pos (Nat.pow_pos (by decide)) (Nat.pow_pos (by decide))
  simp only [hidden] at hplace
  rw [hmid] at hp ⊢
  rcases x.quarters_below with ⟨hlow, hpower, _⟩ | ⟨hlow, _⟩
  · refine ⟨x.step p, ?_, ?_, by omega⟩
    · rw [hlow, Nat.sub_mul, Nat.one_mul]
      exact Nat.sub_add_cancel (Nat.le_mul_of_pos_left _ (by omega))
    · rw [hpower, hidden] at hp
      omega
  · refine ⟨2 * x.step p, ?_, ?_, Nat.le_refl _⟩
    · rw [hlow, Nat.sub_mul]
      exact Nat.sub_add_cancel (Nat.mul_le_mul_right _ (by omega))
    · have hbound : 4 * x.mantissa * x.step p ≤ 4 * 9007199254740991 * x.step p :=
        Nat.mul_le_mul_right _ (by omega)
      omega

/-- On a grid that is fine enough for the number, a multiple of the unit lies between the halfway points. -/
theorem isSome_onGrid? {x : Binary64} (hx : x.isZero = false) {p : Int}
    (hp : 10 ^ 16 * 10 ^ p ≤ x.quarters.1 * x.quarter) : (x.onGrid? p).isSome := by
  have hfine : 10 ^ 16 * x.unit p ≤ x.quarters.1 * x.step p :=
    (x.le_quarters_iff p x.quarters.1 (10 ^ 16)).mp (by exact_mod_cast hp)
  obtain ⟨below, hlow, hunit, hbelow⟩ := exists_below hx hfine
  have hpos : 0 < x.unit p := Nat.mul_pos (Nat.pow_pos (by decide)) (Nat.pow_pos (by decide))
  have hhigh : x.quarters.2.2 * x.step p = x.quarters.1 * x.step p + 2 * x.step p := Nat.add_mul ..
  have hfloor : x.floor p * x.unit p + x.quarters.1 * x.step p % x.unit p = x.quarters.1 * x.step p :=
    Nat.div_add_mod' _ _
  have hmod := Nat.mod_lt (x.quarters.1 * x.step p) hpos
  have hbetween : x.quarters.2.1 * x.step p < x.nearer p * x.unit p ∧
      x.nearer p * x.unit p < x.quarters.2.2 * x.step p := by
    rw [nearer]
    split_ifs with hgap
    · omega
    · rw [Nat.add_mul, Nat.one_mul]
      omega
  have hfits : x.fits p (x.nearer p) = true := by
    rw [fits]
    split <;> simp [hbetween.1, hbetween.2, hbetween.1.le, hbetween.2.le]
  rw [onGrid?_eq, if_pos hfits]
  rfl

/-! ### Seventeen digits -/

theorem lt_pow_length_toDigits (n : Nat) : n < 10 ^ (Nat.toDigits 10 n).length := by
  induction n using Nat.strongRecOn with
  | ind n ih =>
    rcases Nat.lt_or_ge n 10 with hn | hn
    · simpa [Nat.toDigits_of_lt_base hn] using hn
    · have hrest := ih (n / 10) (by omega)
      rw [Nat.toDigits_of_base_le (by decide) hn, List.length_append, List.length_singleton, Nat.pow_succ]
      omega

theorem pow_length_toDigits_le {n : Nat} (h : 0 < n) : 10 ^ ((Nat.toDigits 10 n).length - 1) ≤ n := by
  induction n using Nat.strongRecOn with
  | ind n ih =>
    rcases Nat.lt_or_ge n 10 with hn | hn
    · rw [Nat.toDigits_of_lt_base hn]
      exact h
    · have hrest := ih (n / 10) (by omega) (by omega)
      obtain ⟨k, hk⟩ := Nat.exists_eq_add_one_of_ne_zero (Nat.length_toDigits_pos (b := 10) (n := n / 10)).ne'
      rw [hk, Nat.add_sub_cancel] at hrest
      rw [Nat.toDigits_of_base_le (by decide) hn, List.length_append, hk, List.length_singleton, Nat.add_sub_cancel,
        Nat.pow_succ]
      omega

theorem decade_le {num den : Nat} (hnum : 0 < num) (hden : 0 < den) : (10 : ℚ) ^ decade num den ≤ num / den := by
  have hden' : (0 : ℚ) < den := by exact_mod_cast hden
  rw [decade]
  split
  · rename_i h
    have hq : 0 < num / den := Nat.div_pos h hden
    have hlength : 0 < (Nat.toDigits 10 (num / den)).length := Nat.length_toDigits_pos
    calc (10 : ℚ) ^ (((Nat.toDigits 10 (num / den)).length : Int) - 1)
        = ((10 ^ ((Nat.toDigits 10 (num / den)).length - 1) : Nat) : ℚ) := by
          rw [← Nat.cast_one (R := Int), ← Nat.cast_sub hlength, zpow_natCast]
          norm_cast
      _ ≤ ((num / den : Nat) : ℚ) := by exact_mod_cast pow_length_toDigits_le hq
      _ ≤ num / den := Nat.cast_div_le
  · rename_i h
    have hlt := (Nat.div_lt_iff_lt_mul hnum).mp (lt_pow_length_toDigits ((den - 1) / num))
    have hle : den ≤ 10 ^ (Nat.toDigits 10 ((den - 1) / num)).length * num := by omega
    rw [zpow_neg, zpow_natCast, le_div_iff₀ hden', inv_mul_le_iff₀ (by positivity)]
    exact_mod_cast hle

theorem quotient_eq (x : Binary64) : (x.quotient.1 : ℚ) / x.quotient.2 = x.quarters.1 * x.quarter := by
  have hpow : (2 : ℚ) ^ x.exponent * 2 ^ (-x.exponent).toNat = 2 ^ x.exponent.toNat := zpow_mul_pow (by norm_num) _
  have hquarter : x.quarter * 4 = 2 ^ x.exponent := by
    rw [quarter, zpow_sub₀ (by norm_num)]
    norm_num
  have hden : (x.quotient.2 : ℚ) = 2 ^ (-x.exponent).toNat := by simp [quotient]
  have hnum : (x.quotient.1 : ℚ) = x.mantissa * 2 ^ x.exponent.toNat := by simp [quotient]
  have hmid : (x.quarters.1 : ℚ) = 4 * x.mantissa := by simp [quarters]
  rw [div_eq_iff (by rw [hden]; positivity), hden, hnum, hmid, ← hpow, ← hquarter]
  ring

theorem exists_onGrid? (x : Binary64) (top : Int) (fuel n : Nat)
    (h : (x.onGrid? (top - (n + fuel : Nat) + 1)).isSome) :
    ∃ c p, x.shortestFrom top fuel n = ⟨c, p⟩ ∧ x.onGrid? p = some c := by
  induction fuel generalizing n with
  | zero =>
    obtain ⟨c, hc⟩ := Option.isSome_iff_exists.mp h
    exact ⟨c, _, by rw [shortestFrom, ← Nat.add_zero n, hc]; rfl, hc⟩
  | succ fuel ih =>
    rw [shortestFrom]
    cases hg : x.onGrid? (top - n + 1) with
    | some c => exact ⟨c, _, rfl, hg⟩
    | none => exact ih (n + 1) (by rwa [Nat.add_right_comm])

theorem near_shortest {x : Binary64} (h : x.isZero = false) : x.Near x.shortest.value := by
  have hnum : 0 < x.quotient.1 := Nat.mul_pos (mantissa_pos h) (Nat.pow_pos (by decide))
  have hden : 0 < x.quotient.2 := Nat.pow_pos (by decide)
  generalize htop : decade x.quotient.1 x.quotient.2 = top
  have hfine : (10 : ℚ) ^ 16 * 10 ^ (top - (1 + 16 : Nat) + 1) ≤ x.quarters.1 * x.quarter := by
    calc (10 : ℚ) ^ 16 * 10 ^ (top - (1 + 16 : Nat) + 1)
        = 10 ^ top := by
          rw [← zpow_natCast, ← zpow_add₀ (by norm_num)]
          congr 1
          omega
      _ ≤ x.quotient.1 / x.quotient.2 := htop ▸ decade_le hnum hden
      _ = x.quarters.1 * x.quarter := x.quotient_eq
  obtain ⟨c, p, hfrom, hgrid⟩ := x.exists_onGrid? top 16 1 (isSome_onGrid? h hfine)
  have hvalue : x.shortest.value = c * 10 ^ p := by
    rw [shortest, h, if_neg Bool.false_ne_true, htop, hfrom, Scientific.value_trim]
    rfl
  exact hvalue ▸ near_of_onGrid? hgrid

theorem Near.pos {x : Binary64} (h : x.isZero = false) {r : ℚ} (hr : x.Near r) : 0 < r := by
  have hpos := mantissa_pos h
  have hlow := x.quarters_below
  have hquarters : 0 < x.quarters.2.1 := by omega
  exact (mul_pos (by exact_mod_cast hquarters) x.quarter_pos).trans_le hr.low_le

theorem value_shortest_zero {x : Binary64} (h : x.isZero = true) : x.shortest.value = 0 := by
  simp [shortest, h, Scientific.value]

/-- The shortest decimal tells the magnitudes of numbers apart. -/
theorem ordinal_eq_of_shortest {x y : Binary64} (h : x.shortest.value = y.shortest.value) : x.ordinal = y.ordinal := by
  cases hx : x.isZero <;> cases hy : y.isZero
  · exact (near_shortest hx).ordinal_eq (h ▸ near_shortest hy)
  · exact absurd (h.trans (value_shortest_zero hy)) ((near_shortest hx).pos hx).ne'
  · exact absurd (h.symm.trans (value_shortest_zero hx)) ((near_shortest hy).pos hy).ne'
  · rw [isZero, beq_iff_eq] at hx hy
    rw [hx, hy]

end Binary64

end EventIntake.Decimal
