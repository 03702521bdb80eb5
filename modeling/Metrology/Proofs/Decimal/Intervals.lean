import Mathlib
import Metrology.Decimal.Shortest

/-!
# Intervals of numbers that round to a double

The interval of a double, which is computed with whole numbers over a common denominator, holds the
numbers from half a step below the double to half a step above it. At a power of two the lower half
is half as wide.
-/
namespace Metrology.Decimal

/-- The first number is smaller, or the same where the end belongs to the interval. -/
def Within (closed : Bool) (a b : Rat) : Prop := if closed then a ≤ b else a < b

section Within

variable {closed : Bool} {a b c : Rat}

theorem Within.le (within : Within closed a b) : a ≤ b := by
  cases closed
  · exact le_of_lt within
  · exact within

theorem Within.lt (within : Within closed a b) (strict : closed = false) : a < b := by
  subst strict
  exact within

theorem within_of_lt (less : a < b) : Within closed a b := by
  cases closed
  · exact less
  · exact less.le

theorem Within.le_trans (within : Within closed b c) (before : a ≤ b) : Within closed a c := by
  cases closed
  · exact lt_of_le_of_lt before within
  · exact le_trans before within

theorem within_mul_iff (positive : 0 < c) : Within closed (a * c) (b * c) ↔ Within closed a b := by
  cases closed
  · exact mul_lt_mul_iff_left₀ positive
  · exact mul_le_mul_iff_left₀ positive

end Within

/-- An integer power as a quotient of two powers, one of which is one. -/
theorem zpow_eq_div (b : Rat) (n : Int) : b ^ n = b ^ n.toNat / b ^ (-n).toNat := by
  rcases Int.le_total 0 n with nonneg | nonpos
  · obtain ⟨k, rfl⟩ := Int.eq_ofNat_of_zero_le nonneg
    simp
  · obtain ⟨k, rfl⟩ := Int.exists_eq_neg_ofNat nonpos
    simp

/-! ### Powers of two and ten -/

/-- As 2 ^ 93 is less than 10 ^ 28. -/
theorem two_pow_le_ten_pow {j k : Nat} (fewer : 28 * j ≤ 93 * k) : 2 ^ j ≤ 10 ^ k := by
  refine (Nat.pow_le_pow_iff_left (n := 28) (by decide)).mp ?_
  calc (2 ^ j) ^ 28 = 2 ^ (28 * j) := by rw [← pow_mul, mul_comm]
    _ ≤ 2 ^ (93 * k) := Nat.pow_le_pow_right two_pos fewer
    _ = (2 ^ 93) ^ k := pow_mul 2 93 k
    _ ≤ (10 ^ 28) ^ k := Nat.pow_le_pow_left (by decide) k
    _ = (10 ^ k) ^ 28 := by rw [← pow_mul, ← pow_mul, mul_comm]

/-- As 10 ^ 3 is less than 2 ^ 10. -/
theorem ten_pow_le_two_pow {j k : Nat} (fewer : 10 * k ≤ 3 * j) : 10 ^ k ≤ 2 ^ j := by
  refine (Nat.pow_le_pow_iff_left (n := 3) (by decide)).mp ?_
  calc (10 ^ k) ^ 3 = (10 ^ 3) ^ k := by rw [← pow_mul, ← pow_mul, mul_comm]
    _ ≤ (2 ^ 10) ^ k := Nat.pow_le_pow_left (by decide) k
    _ = 2 ^ (10 * k) := (pow_mul 2 10 k).symm
    _ ≤ 2 ^ (3 * j) := Nat.pow_le_pow_right two_pos fewer
    _ = (2 ^ j) ^ 3 := by rw [← pow_mul, mul_comm]

theorem ten_zpow_le_two_zpow {j k : Int} (large : 10 * k ≤ 3 * j) (small : 93 * k ≤ 28 * j) :
    (10 : Rat) ^ k ≤ 2 ^ j := by
  rcases Int.le_total 0 k with nonneg | nonpos
  · obtain ⟨k, rfl⟩ := Int.eq_ofNat_of_zero_le nonneg
    obtain ⟨j, rfl⟩ := Int.eq_ofNat_of_zero_le (by omega : 0 ≤ j)
    rw [zpow_natCast, zpow_natCast]
    exact_mod_cast ten_pow_le_two_pow (by omega)
  · -- The inverses of both are compared the other way round.
    obtain ⟨k, rfl⟩ := Int.exists_eq_neg_ofNat nonpos
    have inverse : (2 : Rat) ^ (-j) ≤ 10 ^ (k : Int) := by
      calc (2 : Rat) ^ (-j) ≤ 2 ^ ((-j).toNat : Int) :=
            zpow_le_zpow_right₀ one_le_two (Int.self_le_toNat _)
        _ ≤ 10 ^ (k : Int) := by
          rw [zpow_natCast, zpow_natCast]
          exact_mod_cast two_pow_le_ten_pow (by omega)
    rw [zpow_neg] at inverse ⊢
    exact inv_le_of_inv_le₀ (by positivity) inverse

/-- The whole number is the nearest one; of two at the same distance it is the even one. -/
def RoundsTo (x : Rat) (m : Nat) : Prop :=
  Within (m % 2 == 0) (m - 1 / 2) x ∧ Within (m % 2 == 0) x (m + 1 / 2)

namespace Magnitude

namespace Interval

variable {i : Interval} {x : Rat} {k : Int} {n : Nat}

/-- The interval holds a number. -/
def Holds (i : Interval) (x : Rat) : Prop :=
  Within i.closed i.low (x * i.denominator) ∧ Within i.closed (x * i.denominator) i.high

theorem holds_of_contains (inside : i.contains (n * i.denominator) = true) : i.Holds n := by
  unfold Holds Within
  cases closed : i.closed with
  | false =>
    simp only [contains, closed, Bool.false_eq_true, if_false, Bool.and_eq_true,
      decide_eq_true_eq] at inside
    exact_mod_cast inside
  | true =>
    simp only [contains, closed, if_true, Bool.and_eq_true, decide_eq_true_eq] at inside
    exact_mod_cast inside

/-- An interval in other units holds the same numbers, measured in these units. -/
theorem holds_inUnits_iff : (i.inUnits k).Holds x ↔ i.Holds (x * 10 ^ k) := by
  have finer : (0 : Rat) < 10 ^ (-k).toNat := by positivity
  have scaled : x * (i.denominator * 10 ^ k.toNat)
      = x * 10 ^ k * i.denominator * 10 ^ (-k).toNat := by
    rw [zpow_eq_div]
    field_simp
  simp only [Holds, inUnits, Nat.pow_eq]
  push_cast
  rw [scaled, within_mul_iff finer, within_mul_iff finer]

end Interval

variable {x : Magnitude} {v : Rat}

/-- Half the distance to the next double below. -/
def gap (x : Magnitude) : Rat := if x.narrowBelow then 1 / 4 else 1 / 2

/-- The interval of a double holds what is next to its mantissa in units of its last digit. -/
theorem holds_interval_iff (positive : 0 < x.mantissa) :
    x.interval.Holds v ↔
      Within (x.mantissa % 2 == 0) (x.mantissa - x.gap) (v / 2 ^ x.exponent) ∧
        Within (x.mantissa % 2 == 0) (v / 2 ^ x.exponent) (x.mantissa + 1 / 2) := by
  -- What the ends of the interval and the number itself are multiplied with.
  set scale : Rat := 4 * 2 ^ (x.exponent - 2).toNat with scale_eq
  have some : 0 < scale := by positivity
  have value : v * (2 ^ (-(x.exponent - 2)).toNat : Nat) = v / 2 ^ x.exponent * scale := by
    have unit : (2 : Rat) ^ x.exponent = 4 * 2 ^ (x.exponent - 2) := by
      rw [zpow_sub₀ two_ne_zero]
      ring
    rw [unit, zpow_eq_div, scale_eq]
    push_cast
    field_simp
  have low : ((x.interval.low : Nat) : Rat) = (x.mantissa - x.gap) * scale := by
    simp only [interval, Nat.pow_eq, gap, scale_eq]
    split
    · rw [Nat.cast_mul, Nat.cast_sub (by omega)]
      push_cast
      ring
    · rw [Nat.cast_mul, Nat.cast_sub (by omega)]
      push_cast
      ring
  have high : ((x.interval.high : Nat) : Rat) = (x.mantissa + 1 / 2) * scale := by
    simp only [interval, Nat.pow_eq, scale_eq]
    push_cast
    ring
  rw [Interval.Holds, low, high]
  simp only [interval, Nat.pow_eq]
  rw [value, within_mul_iff some, within_mul_iff some]

/-- What the magnitude of a finite double other than zero is like: either its mantissa has all 53
digits, or its exponent is the smallest one. -/
structure Proper (x : Magnitude) : Prop where
  positive : 0 < x.mantissa
  digits : x.mantissa < 2 ^ 53
  lowest : -1074 ≤ x.exponent
  highest : x.exponent ≤ 971
  normal : x.exponent ≠ -1074 → 2 ^ 52 ≤ x.mantissa
  narrow : x.narrowBelow = true ↔ x.mantissa = 2 ^ 52 ∧ x.exponent ≠ -1074

theorem gap_le (x : Magnitude) : x.gap ≤ 1 / 2 := by
  unfold gap
  split <;> norm_num

namespace Proper

/-- The mantissa has no more than 53 digits, also after rounding up. -/
theorem lt_zpow (proper : x.Proper) (holds : x.interval.Holds v) : v < 2 ^ (53 + x.exponent) := by
  have high := ((holds_interval_iff proper.positive).mp holds).2.le
  have digits : (x.mantissa : Rat) + 1 ≤ 2 ^ 53 := by exact_mod_cast proper.digits
  rw [zpow_add₀ two_ne_zero]
  refine (div_lt_iff₀ (by positivity)).mp ?_
  change v / 2 ^ x.exponent < 2 ^ 53
  linarith

/-- The mantissa of a normal number has no less than 52 digits, also after rounding down. -/
theorem zpow_lt (proper : x.Proper) (holds : x.interval.Holds v) (normal : x.exponent ≠ -1074) :
    2 ^ (51 + x.exponent) < v := by
  have low := ((holds_interval_iff proper.positive).mp holds).1.le
  have digits : (2 : Rat) ^ 52 ≤ x.mantissa := by exact_mod_cast proper.normal normal
  have near := x.gap_le
  rw [zpow_add₀ two_ne_zero]
  refine (lt_div_iff₀ (by positivity)).mp ?_
  change 2 ^ 51 < v / 2 ^ x.exponent
  linarith

theorem zpow_le (proper : x.Proper) (holds : x.interval.Holds v) : 2 ^ (-1 + x.exponent) ≤ v := by
  have low := ((holds_interval_iff proper.positive).mp holds).1.le
  have some : (1 : Rat) ≤ x.mantissa := by exact_mod_cast proper.positive
  have near := x.gap_le
  rw [zpow_add₀ two_ne_zero, zpow_neg_one]
  refine (le_div_iff₀ (by positivity)).mp ?_
  linarith

/-- Only at a power of two does the interval reach below the numbers with as many digits. -/
theorem power_of_lt (proper : x.Proper) (holds : x.interval.Holds v) (normal : x.exponent ≠ -1074)
    (below : v < 2 ^ (52 + x.exponent)) : x.mantissa = 2 ^ 52 := by
  have low := ((holds_interval_iff proper.positive).mp holds).1.le
  have near := x.gap_le
  rw [zpow_add₀ two_ne_zero] at below
  have quotient : v / 2 ^ x.exponent < 2 ^ 52 := (div_lt_iff₀ (by positivity)).mpr below
  have few : (x.mantissa : Rat) < 2 ^ 52 + 1 := by linarith
  have most := proper.normal normal
  norm_cast at few
  omega

end Proper

end Magnitude

end Metrology.Decimal
