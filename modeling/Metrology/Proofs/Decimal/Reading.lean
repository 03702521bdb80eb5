import Metrology.Proofs.Decimal.Doubles

/-!
# Decimal numbers are read as the nearest double

A decimal number in the interval of a double is read as this double, whichever way it is computed:
as the product or quotient of two doubles that are exact, or as one of large whole numbers.
-/
namespace Metrology.Decimal

open Float.Model Float.Model.UnpackedFloat

variable {d : Magnitude} {v : Rat} {m : Nat}

/-! ### Numbers that are doubles -/

/-- A double lies in its own interval. -/
theorem holds_self (positive : 0 < d.mantissa) :
    d.interval.Holds (d.mantissa * 2 ^ d.exponent) := by
  have unit : (2 : Rat) ^ d.exponent ≠ 0 := by positivity
  have some : 0 < d.gap := by
    unfold Magnitude.gap
    split <;> norm_num
  rw [Magnitude.holds_interval_iff positive, mul_div_cancel_right₀ _ unit]
  exact ⟨within_of_lt (by linarith), within_of_lt (by linarith)⟩

/-- The number is that of a double with all 53 digits. -/
def IsDouble (x : Float) (v : Rat) : Prop :=
  ∃ (d : Magnitude) (proper : d.Proper), x = proper.double .positive ∧ 2 ^ 52 ≤ d.mantissa ∧
    d.mantissa * 2 ^ d.exponent = v

/-- A whole number with zeros added behind its digits until there are 53. -/
def filledUp (m : Nat) : Magnitude where
  mantissa := m * 2 ^ (52 - m.log2)
  exponent := m.log2 - 52
  narrowBelow := m * 2 ^ (52 - m.log2) = 2 ^ 52

theorem le_filledUp (some : m ≠ 0) (small : m < 2 ^ 53) : 2 ^ 52 ≤ (filledUp m).mantissa := by
  have log : m.log2 < 53 := (Nat.log2_lt some).mpr small
  calc 2 ^ 52 = 2 ^ m.log2 * 2 ^ (52 - m.log2) := by rw [← pow_add]; congr 1; omega
    _ ≤ m * 2 ^ (52 - m.log2) := by gcongr; exact Nat.log2_self_le some

theorem proper_filledUp (some : m ≠ 0) (small : m < 2 ^ 53) : (filledUp m).Proper := by
  have log : m.log2 < 53 := (Nat.log2_lt some).mpr small
  have filled := le_filledUp some small
  have digits : (filledUp m).mantissa < 2 ^ 53 := by
    calc m * 2 ^ (52 - m.log2) < 2 ^ (m.log2 + 1) * 2 ^ (52 - m.log2) := by
          gcongr
          exact Nat.lt_log2_self
      _ = 2 ^ 53 := by rw [← pow_add]; congr 1; omega
  have exponent : (filledUp m).exponent = m.log2 - 52 := rfl
  exact
    { positive := by omega
      digits
      lowest := by omega
      highest := by omega
      normal := fun _ => filled
      narrow := by
        have other : (filledUp m).exponent ≠ -1074 := by omega
        simp only [other, ne_eq, not_false_eq_true, and_true]
        exact decide_eq_true_iff }

theorem filledUp_eq (small : m.log2 ≤ 52) :
    ((filledUp m).mantissa : Rat) * 2 ^ (filledUp m).exponent = m := by
  have exponent : (filledUp m).exponent = -((52 - m.log2 : Nat) : Int) := by
    change (m.log2 : Int) - 52 = _
    omega
  rw [exponent, zpow_neg, zpow_natCast, filledUp]
  push_cast
  field_simp

/-- A whole number with at most 53 digits is rounded to itself. -/
theorem round_filledUp (some : m ≠ 0) (small : m < 2 ^ 53) :
    UnpackedFloat.round Format.binary64 .positive m 0 =
      .finite .positive (filledUp m).mantissa (filledUp m).exponent
        (proper_filledUp some small).positive := by
  have log : m.log2 < 53 := (Nat.log2_lt some).mpr small
  have proper := proper_filledUp some small
  have target : Format.binary64.targetExponent (totalExponent m 0) = (filledUp m).exponent := by
    change max ((m.log2 : Int) + 1 + 0 - 53) (-1074) = m.log2 - 52
    omega
  -- Zeros are added before anything is rounded, so that no digit is dropped.
  have filled : decreaseExponent m 0 (filledUp m).exponent =
      ((filledUp m).mantissa, (filledUp m).exponent) := by
    have amount : (0 - (filledUp m).exponent).toNat = 52 - m.log2 := by
      change (0 - ((m.log2 : Int) - 52)).toNat = _
      omega
    rw [decreaseExponent, amount, Nat.shiftLeft_eq]
    refine Prod.ext rfl ?_
    change (0 : Int) - (52 - m.log2 : Nat) = m.log2 - 52
    omega
  have stands := standsFor_exact (filledUp m).mantissa
  rw [← mul_div_cancel_right₀ ((filledUp m).mantissa : Rat)
    (zpow_ne_zero (filledUp m).exponent two_ne_zero)] at stands
  simp only [UnpackedFloat.round, target, filled]
  refine roundWithAccuracy_eq proper (holds_self proper.positive) stands ?_
  have digits : 52 ≤ (filledUp m).mantissa.log2 :=
    (Nat.le_log2 proper.positive.ne').mpr (le_filledUp some small)
  rw [targetExponent_eq, totalExponent]
  omega

/-- A whole number with at most 53 digits is a double. -/
theorem isDouble_toFloat (some : m ≠ 0) (small : m < 2 ^ 53) : IsDouble m.toUInt64.toFloat m := by
  have log : m.log2 < 53 := (Nat.log2_lt some).mpr small
  refine ⟨filledUp m, proper_filledUp some small, ?_, le_filledUp some small,
    filledUp_eq (by omega)⟩
  have same : m.toUInt64.toNat = m := UInt64.toNat_ofNat_of_lt (small.trans (by decide))
  have order : compare (m : Int) 0 = .gt := Int.compare_eq_gt.mpr (by omega)
  have normalized : UnpackedFloat.ofUInt64 Format.binary64 m.toUInt64 =
      UnpackedFloat.round Format.binary64 .positive m 0 := by
    simp only [UnpackedFloat.ofUInt64, UnpackedFloat.ofNat, UnpackedFloat.ofInt,
      UnpackedFloat.normalize, same, order, Int.toNat_natCast]
  rw [round_filledUp some small] at normalized
  exact congrArg (fun f => Float.ofModel (.pack f)) normalized

/-- The number that is tabulated as a power of ten is this power, with 53 digits. -/
def Tabulates (x : Float) (e : Nat) : Prop :=
  exponentField x.toBits ≠ 2047 ∧ x.toBits.toNat < 2 ^ 63 ∧
    2 ^ 52 ≤ (Magnitude.ofBits x.toBits).mantissa ∧ -52 ≤ (Magnitude.ofBits x.toBits).exponent ∧
    (Magnitude.ofBits x.toBits).mantissa * 2 ^ ((Magnitude.ofBits x.toBits).exponent + 52).toNat =
      10 ^ e * 2 ^ 52

instance (x : Float) (e : Nat) : Decidable (Tabulates x e) :=
  inferInstanceAs (Decidable (_ ∧ _ ∧ _ ∧ _ ∧ _))

theorem tabulates_powersOfTen : ∀ e : Fin Float.exactlyRepresentablePowersOfTen.size,
    Tabulates Float.exactlyRepresentablePowersOfTen[e] e := by
  decide +kernel

/-- The powers of ten in the table are doubles. -/
theorem isDouble_powersOfTen {e : Nat} (small : e < Float.exactlyRepresentablePowersOfTen.size) :
    IsDouble Float.exactlyRepresentablePowersOfTen[e] (10 ^ e) := by
  obtain ⟨finite, unsigned, digits, exponent, value⟩ := tabulates_powersOfTen ⟨e, small⟩
  simp only [Fin.getElem_fin] at finite unsigned digits exponent value
  generalize Float.exactlyRepresentablePowersOfTen[e] = x at *
  have some : (Magnitude.ofBits x.toBits).mantissa ≠ 0 := by omega
  have positive : signOf x.toBits = .positive := if_neg (by omega)
  refine ⟨_, proper_ofBits finite some, ?_, digits, ?_⟩
  · rw [← positive]
    exact eq_double finite some
  · generalize Magnitude.ofBits x.toBits = d at *
    have power : (2 : Rat) ^ d.exponent * 2 ^ 52 = 2 ^ (d.exponent + 52).toNat := by
      rw [← zpow_natCast, ← zpow_natCast, ← zpow_add₀ two_ne_zero]
      congr 1
      omega
    have value : (d.mantissa : Rat) * (2 ^ d.exponent * 2 ^ 52) = 10 ^ e * 2 ^ 52 := by
      rw [power]
      exact_mod_cast value
    rw [← mul_assoc] at value
    exact mul_right_cancel₀ (by norm_num) value

/-! ### Reading -/

theorem IsDouble.mul {x y : Float} {a b : Rat} (first : IsDouble x a) (second : IsDouble y b)
    (proper : d.Proper) (holds : d.interval.Holds (a * b)) : x * y = proper.double .positive := by
  obtain ⟨d₁, proper₁, rfl, digits₁, rfl⟩ := first
  obtain ⟨d₂, proper₂, rfl, digits₂, rfl⟩ := second
  refine double_mul proper ?_ holds
  calc 2 ^ 53 ≤ 2 ^ 52 * 2 ^ 52 := by decide
    _ ≤ d₁.mantissa * d₂.mantissa := Nat.mul_le_mul digits₁ digits₂

theorem IsDouble.div {x y : Float} {a b : Rat} (first : IsDouble x a) (second : IsDouble y b)
    (proper : d.Proper) (holds : d.interval.Holds (a / b)) : x / y = proper.double .positive := by
  obtain ⟨d₁, proper₁, rfl, -, rfl⟩ := first
  obtain ⟨d₂, proper₂, rfl, -, rfl⟩ := second
  exact double_div proper holds

/-- Numbers in the interval of a double are below the end of the range of doubles. -/
theorem lt_of_holds (proper : d.Proper) (holds : d.interval.Holds v) : v < 2 ^ (1024 : Int) := by
  have highest := proper.highest
  exact (proper.lt_zpow holds).trans_le (zpow_le_zpow_right₀ one_le_two (by omega))

/-- Numbers in the interval of a double are at least half the smallest double. -/
theorem le_of_holds (proper : d.Proper) (holds : d.interval.Holds v) : 2 ^ (-1075 : Int) ≤ v := by
  have lowest := proper.lowest
  exact (zpow_le_zpow_right₀ one_le_two (by omega)).trans (proper.zpow_le holds)

theorem ne_zero_of_holds (proper : d.Proper) {e : Int} (holds : d.interval.Holds (m * 10 ^ e)) :
    m ≠ 0 := by
  rintro rfl
  have above := le_of_holds proper holds
  rw [Nat.cast_zero, zero_mul] at above
  exact absurd above (not_le.mpr (by positivity))

/-- The exponent of a decimal number in the interval of a double is not too large. -/
theorem exponent_le_of_holds (proper : d.Proper) {e : Int}
    (holds : d.interval.Holds (m * 10 ^ e)) : e ≤ 2048 := by
  by_contra! large
  have one : (1 : Rat) ≤ m :=
    mod_cast Nat.one_le_iff_ne_zero.mpr (ne_zero_of_holds proper holds)
  have beyond : (2 : Rat) ^ (1024 : Int) ≤ m * 10 ^ e := by
    calc (2 : Rat) ^ (1024 : Int) ≤ 2 ^ e := zpow_le_zpow_right₀ one_le_two (by omega)
      _ ≤ 10 ^ e := zpow_le_zpow_left₀ (by omega) (by norm_num) (by norm_num)
      _ ≤ m * 10 ^ e := le_mul_of_one_le_left (by positivity) one
  exact absurd (lt_of_holds proper holds) (not_lt.mpr beyond)

/-- Nor is it too small for the number of digits. -/
theorem le_exponent_of_holds (proper : d.Proper) {e : Int}
    (holds : d.interval.Holds (m * 10 ^ e)) : -(2048 + (m.log2 : Int)) ≤ e := by
  by_contra! small
  have digits : (m : Rat) < 2 ^ (m.log2 + 1) := by exact_mod_cast Nat.lt_log2_self
  have five : (5 : Rat) ^ e ≤ 1 := zpow_le_one_of_nonpos₀ (by norm_num) (by omega)
  have beyond : m * 10 ^ e < (2 : Rat) ^ (-1075 : Int) := by
    calc (m : Rat) * 10 ^ e = m * (5 ^ e * 2 ^ e) := by
          rw [← mul_zpow]
          norm_num
      _ ≤ m * (1 * 2 ^ e) := by gcongr
      _ < 2 ^ (m.log2 + 1) * (1 * 2 ^ e) := by gcongr
      _ = 2 ^ ((m.log2 : Int) + 1 + e) := by
        rw [one_mul, zpow_add₀ two_ne_zero]
        norm_cast
      _ ≤ 2 ^ (-1075 : Int) := zpow_le_zpow_right₀ one_le_two (by omega)
  exact absurd (le_of_holds proper holds) (not_le.mpr beyond)

/-- A decimal number in the interval of a double is this double, computed with whole numbers. -/
theorem ofScientific_eq (proper : d.Proper) {e : Int} (holds : d.interval.Holds (m * 10 ^ e)) :
    UnpackedFloat.ofScientific Format.binary64 m e =
      .finite .positive d.mantissa d.exponent proper.positive := by
  have some := ne_zero_of_holds proper holds
  have notLarge : ¬ e > 2048 := not_lt.mpr (exponent_le_of_holds proper holds)
  have notSmall : ¬ e < -(2048 + (m.log2 : Int)) := not_lt.mpr (le_exponent_of_holds proper holds)
  rw [UnpackedFloat.ofScientific, dif_neg some]
  refine (if_neg notLarge).trans ((if_neg notSmall).trans ?_)
  by_cases whole : 0 ≤ e
  · obtain ⟨k, rfl⟩ := Int.eq_ofNat_of_zero_le whole
    rw [if_pos whole]
    -- The digits are shifted first, so that there are enough of them to round.
    refine mul_eq proper ?_ ?_
    · have value : ((m <<< Format.binary64.mantissaBits : Nat) : Rat) *
          2 ^ (-(Format.binary64.mantissaBits : Int)) *
            ((10 ^ (k : Int).toNat : Nat) * 2 ^ (0 : Int)) = m * 10 ^ (k : Int) := by
        rw [Nat.shiftLeft_eq, Int.toNat_natCast, zpow_neg, zpow_natCast, zpow_zero, zpow_natCast]
        push_cast
        field_simp
      rw [value]
      exact holds
    · calc 2 ^ 53 ≤ m * 2 ^ 53 * 10 ^ (k : Int).toNat := by
            rw [mul_right_comm]
            exact Nat.le_mul_of_pos_left _ (by positivity)
        _ = m <<< Format.binary64.mantissaBits * 10 ^ (k : Int).toNat := by
          rw [Nat.shiftLeft_eq]
          rfl
  · obtain ⟨k, rfl⟩ := Int.exists_eq_neg_ofNat (by omega : e ≤ 0)
    rw [if_neg whole]
    refine div_eq proper ?_
    have value : (m : Rat) * 2 ^ (0 : Int) / ((10 ^ (- -(k : Int)).toNat : Nat) * 2 ^ (0 : Int)) =
        m * 10 ^ (-(k : Int)) := by
      rw [Int.neg_neg, Int.toNat_natCast, zpow_neg, zpow_natCast, zpow_zero]
      push_cast
      field_simp
    rw [value]
    exact holds

/-- A decimal number in the interval of a double is this double, whichever way it is computed. -/
theorem ofScientific_eq_double (proper : d.Proper) {e : Int}
    (holds : d.interval.Holds (m * 10 ^ e)) :
    Float.ofScientific m (e < 0) e.natAbs = proper.double .positive := by
  unfold Float.ofScientific
  split
  next small =>
    -- The digits and the power of ten are doubles themselves.
    obtain ⟨digits, power⟩ := small
    have bound : e.natAbs < Float.exactlyRepresentablePowersOfTen.size := by
      change _ < 23
      omega
    have whole := isDouble_toFloat (ne_zero_of_holds proper holds) digits
    have table := isDouble_powersOfTen bound
    by_cases negative : e < 0
    · simp only [negative, decide_true, if_true]
      refine whole.div table proper ?_
      have power : (10 : Rat) ^ e = ((10 : Rat) ^ e.natAbs)⁻¹ := by
        rw [← zpow_natCast, ← zpow_neg]
        congr 1
        omega
      rwa [power] at holds
    · simp only [negative, decide_false, Bool.false_eq_true, if_false]
      refine whole.mul table proper ?_
      have power : (10 : Rat) ^ e = (10 : Rat) ^ e.natAbs := by
        rw [← zpow_natCast]
        congr 1
        omega
      rwa [power] at holds
  next =>
    have same :
        (if decide (e < 0) = true then Int.negOfNat e.natAbs else Int.ofNat e.natAbs) = e := by
      split
      next negative =>
        rw [decide_eq_true_eq] at negative
        rw [Int.negOfNat_eq]
        change -(e.natAbs : Int) = e
        omega
      next nonnegative =>
        rw [decide_eq_true_eq] at nonnegative
        change (e.natAbs : Int) = e
        omega
    simp only [same]
    exact congrArg (fun f => Float.ofModel (.pack f)) (ofScientific_eq proper holds)

theorem lt_pow_length (n : Nat) : n < 10 ^ (Nat.toDigits 10 n).length :=
  (Nat.length_toDigits_le_iff (by decide) Nat.length_toDigits_pos).mp le_rfl

theorem pow_length_le (some : m ≠ 0) : 10 ^ ((Nat.toDigits 10 m).length - 1) ≤ m := by
  rcases Nat.eq_zero_or_pos ((Nat.toDigits 10 m).length - 1) with short | long
  · rw [short]
    exact Nat.one_le_iff_ne_zero.mpr some
  · by_contra less
    have fewer := (Nat.length_toDigits_le_iff (by decide) long).mpr (Nat.lt_of_not_le less)
    omega

/-- The first digit of a decimal number in the interval of a double is not too far to the left. -/
theorem length_le_of_holds (proper : d.Proper) {e : Int}
    (holds : d.interval.Holds (m * 10 ^ e)) : (Nat.toDigits 10 m).length + e ≤ 310 := by
  by_contra! large
  set length := (Nat.toDigits 10 m).length with length_eq
  have digits : (10 : Rat) ^ (length - 1) ≤ m := by
    exact_mod_cast pow_length_le (ne_zero_of_holds proper holds)
  have positive : 0 < length := Nat.length_toDigits_pos
  have beyond : (2 : Rat) ^ (1024 : Int) ≤ m * 10 ^ e := by
    calc (2 : Rat) ^ (1024 : Int) ≤ 10 ^ (310 : Int) := by
          exact_mod_cast two_pow_le_ten_pow (j := 1024) (k := 310) (by decide)
      _ ≤ 10 ^ (((length - 1 : Nat) : Int) + e) := zpow_le_zpow_right₀ (by norm_num) (by omega)
      _ = 10 ^ (length - 1) * 10 ^ e := by rw [zpow_add₀ (by norm_num), zpow_natCast]
      _ ≤ m * 10 ^ e := by gcongr
  exact absurd (lt_of_holds proper holds) (not_lt.mpr beyond)

/-- Nor is it too far to the right. -/
theorem lt_length_of_holds (proper : d.Proper) {e : Int}
    (holds : d.interval.Holds (m * 10 ^ e)) : -330 < (Nat.toDigits 10 m).length + e := by
  by_contra! small
  set length := (Nat.toDigits 10 m).length with length_eq
  have digits : (m : Rat) < 10 ^ length := by exact_mod_cast lt_pow_length m
  have beyond : m * 10 ^ e < (2 : Rat) ^ (-1075 : Int) := by
    calc (m : Rat) * 10 ^ e < 10 ^ length * 10 ^ e := by gcongr
      _ = 10 ^ (length + e) := by rw [zpow_add₀ (by norm_num), zpow_natCast]
      _ ≤ 2 ^ (-1075 : Int) := ten_zpow_le_two_zpow (by omega) (by omega)
  exact absurd (le_of_holds proper holds) (not_le.mpr beyond)

/-- The sign of a literal. -/
def Literal.sign (l : Literal) : Sign := if l.negative then .negative else .positive

/-- A literal in the interval of a double is read as this double. -/
theorem toFloat_eq_double (proper : d.Proper) {l : Literal}
    (holds : d.interval.Holds (l.digits * 10 ^ l.exponent)) :
    l.toFloat = proper.double l.sign := by
  have some := ne_zero_of_holds proper holds
  have notSmall := not_le.mpr (lt_length_of_holds proper holds)
  have notLarge := not_lt.mpr (length_le_of_holds proper holds)
  have magnitude := ofScientific_eq_double proper holds
  unfold Literal.toFloat Literal.sign
  simp only [some, notSmall, notLarge, decide_false, Bool.or_false, if_false,
    Bool.false_eq_true, magnitude]
  split
  · exact double_neg proper .positive
  · rfl

end Metrology.Decimal
