import Metrology.Proofs.Decimal.Intervals

/-!
# Rounding to a double

Arithmetic on doubles computes an exact result, as a mantissa with two residual digits, and rounds
it once. An exact result in the interval of a double becomes this double.
-/
namespace Metrology.Decimal

open Float.Model Float.Model.UnpackedFloat
open Float.Model.UnpackedFloat.ExtendedMantissa (ofMantissaAndAccuracy)

variable {em : ExtendedMantissa} {x v : Rat} {m : Nat}

/-! ### Mantissas with residual digits -/

/-- A mantissa together with its first residual digit. -/
def halves (em : ExtendedMantissa) : Rat := em.mantissa + if em.roundBit then 1 / 2 else 0

/-- A mantissa with two residual digits stands for a number if the number begins like this. The
second digit only tells whether there is any more. -/
structure StandsFor (em : ExtendedMantissa) (x : Rat) : Prop where
  exact : em.stickyBit = false → x = halves em
  more : em.stickyBit = true → halves em < x ∧ x < halves em + 1 / 2

/-- The digits of the mantissa are those before the point. -/
theorem StandsFor.mem (stands : StandsFor em x) : em.mantissa ≤ x ∧ x < em.mantissa + 1 := by
  obtain ⟨exact, more⟩ := stands
  obtain ⟨mantissa, round, sticky⟩ := em
  cases round <;> cases sticky <;> simp [halves] at exact more ⊢ <;> constructor <;> linarith

theorem halves_shiftRightOne (em : ExtendedMantissa) :
    halves em.shiftRightOne = (em.mantissa : Rat) / 2 := by
  have split : ((2 * (em.mantissa / 2) + em.mantissa % 2 : Nat) : Rat) = em.mantissa := by
    exact_mod_cast Nat.div_add_mod em.mantissa 2
  rcases Nat.mod_two_eq_zero_or_one em.mantissa with even | odd
  · simp only [halves, ExtendedMantissa.shiftRightOne, even] at split ⊢
    push_cast at split
    simp only [bne_self_eq_false, Bool.false_eq_true, if_false]
    linarith
  · simp only [halves, ExtendedMantissa.shiftRightOne, odd] at split ⊢
    push_cast at split
    simp only [ne_eq, one_ne_zero, not_false_eq_true, bne_iff_ne, if_true]
    linarith

theorem StandsFor.shiftRightOne (stands : StandsFor em x) :
    StandsFor em.shiftRightOne (x / 2) := by
  have same := halves_shiftRightOne em
  obtain ⟨exact, more⟩ := stands
  obtain ⟨mantissa, round, sticky⟩ := em
  constructor
  · intro none
    obtain ⟨rfl, rfl⟩ : round = false ∧ sticky = false := by
      simpa [ExtendedMantissa.shiftRightOne] using none
    rw [same, exact rfl]
    simp [halves]
  · intro some
    rw [same]
    -- Whatever residual digit is there lies between this mantissa and the next one.
    have between : (mantissa : Rat) < x ∧ x < mantissa + 1 := by
      cases round <;> cases sticky <;>
        simp [halves, ExtendedMantissa.shiftRightOne] at exact more some ⊢ <;>
        constructor <;> linarith
    constructor <;> simp only <;> linarith

theorem StandsFor.shiftRight (stands : StandsFor em x) (n : Nat) :
    StandsFor (em >>> n) (x / 2 ^ n) := by
  change StandsFor (n.repeat ExtendedMantissa.shiftRightOne em) _
  induction n with
  | zero => simpa [Nat.repeat] using stands
  | succ n ih =>
    rw [Nat.repeat, pow_succ, div_mul_eq_div_div]
    exact ih.shiftRightOne

theorem eq_of_near {n : Nat} (above : (n : Rat) < m + 1) (below : (m : Rat) < n + 1) : n = m := by
  norm_cast at above below
  omega

/-- The mantissa is rounded to the nearest whole number, which the residual digits tell. -/
theorem StandsFor.roundedMantissa_eq (stands : StandsFor em x) (rounds : RoundsTo x m) :
    em.roundedMantissa = m := by
  obtain ⟨exact, more⟩ := stands
  have low := rounds.1.le
  have high := rounds.2.le
  obtain ⟨mantissa, round, sticky⟩ := em
  simp only [halves] at exact more
  simp only [ExtendedMantissa.roundedMantissa]
  cases round <;> cases sticky <;>
    simp only [if_true, if_false, Bool.false_eq_true, add_zero, forall_const, IsEmpty.forall_iff,
      ExtendedMantissa.accuracy, Accuracy.roundToNearestEven] at exact more ⊢
  case false.false => exact eq_of_near (by linarith) (by linarith)
  case false.true => exact eq_of_near (by linarith) (by linarith)
  case true.false =>
    -- Halfway between two mantissas, where an odd one is not rounded to.
    have even : m % 2 ≠ 1 := by
      intro odd
      have less := rounds.1.lt (by simp [odd])
      have greater := rounds.2.lt (by simp [odd])
      have same : mantissa = m := eq_of_near (by linarith) (by linarith)
      rw [same] at exact
      linarith
    have above : (mantissa : Rat) < m + 1 := by linarith
    have below : (m : Rat) < mantissa + 2 := by linarith
    norm_cast at above below
    omega
  case true.true => exact eq_of_near (by push_cast; linarith) (by push_cast; linarith)

/-! ### Rounding -/

theorem targetExponent_eq (total : Int) :
    Format.binary64.targetExponent total = max (total - 53) (-1074) := rfl

theorem standsFor_exact (m : Nat) : StandsFor (ofMantissaAndAccuracy m .exact) m := by
  constructor <;> simp [ofMantissaAndAccuracy, halves]

theorem mantissa_ofMantissaAndAccuracy (m : Nat) (accuracy : Accuracy) :
    (ofMantissaAndAccuracy m accuracy).mantissa = m := by
  unfold ofMantissaAndAccuracy
  split <;> rfl

variable {mantissa : Nat} {exponent target : Int} {accuracy : Accuracy} {sign : Sign}

/-- Digits are only dropped. -/
theorem shiftToExponent_eq (fine : exponent ≤ target) :
    shiftToExponent mantissa exponent accuracy target =
      (ofMantissaAndAccuracy mantissa accuracy >>> (target - exponent).toNat, target) := by
  have amount : exponent + ((target - exponent).toNat : Int) = target := by omega
  simp only [shiftToExponent, amount]

theorem shiftToExponent_eq_self (coarse : target ≤ exponent) :
    shiftToExponent mantissa exponent accuracy target =
      (ofMantissaAndAccuracy mantissa accuracy, exponent) := by
  have amount : (target - exponent).toNat = 0 := by omega
  simp only [shiftToExponent, amount]
  exact Prod.ext rfl (Int.add_zero exponent)

/-- What stands for a number in some units does so in larger units, with fewer digits. -/
theorem StandsFor.inUnits (stands : StandsFor em (v / 2 ^ exponent)) (fine : exponent ≤ target) :
    StandsFor (em >>> (target - exponent).toNat) (v / 2 ^ target) := by
  have amount : target = exponent + ((target - exponent).toNat : Int) := by omega
  have shifted := stands.shiftRight (target - exponent).toNat
  rw [div_div, ← zpow_natCast, ← zpow_add₀ two_ne_zero, ← amount] at shifted
  exact shifted

/-- A number is below the power of two that its digits end before. -/
theorem StandsFor.lt_totalExponent
    (stands : StandsFor (ofMantissaAndAccuracy mantissa accuracy) (v / 2 ^ exponent)) :
    v < 2 ^ totalExponent mantissa exponent := by
  obtain ⟨-, below⟩ := stands.mem
  have unit : (0 : Rat) < 2 ^ exponent := by positivity
  have digits : (mantissa : Rat) + 1 ≤ 2 ^ (mantissa.log2 + 1) := by
    exact_mod_cast Nat.lt_log2_self
  rw [mantissa_ofMantissaAndAccuracy] at below
  calc v = v / 2 ^ exponent * 2 ^ exponent := by field_simp
    _ < 2 ^ (mantissa.log2 + 1) * 2 ^ exponent := by gcongr; linarith
    _ = 2 ^ totalExponent mantissa exponent := by
      rw [totalExponent, zpow_add₀ two_ne_zero]
      norm_cast

/-- The first digit of a mantissa other than zero counts. -/
theorem StandsFor.totalExponent_le
    (stands : StandsFor (ofMantissaAndAccuracy mantissa accuracy) (v / 2 ^ exponent))
    (some : mantissa ≠ 0) : 2 ^ (totalExponent mantissa exponent - 1) ≤ v := by
  obtain ⟨above, -⟩ := stands.mem
  have unit : (0 : Rat) < 2 ^ exponent := by positivity
  have digits : (2 : Rat) ^ mantissa.log2 ≤ mantissa := by
    exact_mod_cast Nat.log2_self_le some
  have total : totalExponent mantissa exponent - 1 = mantissa.log2 + exponent := by
    unfold totalExponent
    omega
  rw [mantissa_ofMantissaAndAccuracy] at above
  calc (2 : Rat) ^ (totalExponent mantissa exponent - 1)
      = 2 ^ mantissa.log2 * 2 ^ exponent := by
        rw [total, zpow_add₀ two_ne_zero]
        norm_cast
    _ ≤ v / 2 ^ exponent * 2 ^ exponent := by gcongr; linarith
    _ = v := by field_simp

variable {d : Magnitude}

/-- The exponent that a number in the interval of a double is rounded with is that of the double,
or, below a power of two, the one before. -/
theorem targetExponent_cases (proper : d.Proper) (holds : d.interval.Holds v)
    (stands : StandsFor (ofMantissaAndAccuracy mantissa accuracy) (v / 2 ^ exponent))
    (fine : exponent ≤ Format.binary64.targetExponent (totalExponent mantissa exponent)) :
    Format.binary64.targetExponent (totalExponent mantissa exponent) = d.exponent ∨
      Format.binary64.targetExponent (totalExponent mantissa exponent) = d.exponent - 1 ∧
        d.mantissa = 2 ^ 52 ∧ d.exponent ≠ -1074 := by
  have lowest := proper.lowest
  have above := stands.lt_totalExponent
  -- Without any digits the exponent is the smallest one.
  have noDigits : mantissa = 0 → totalExponent mantissa exponent = exponent + 1 := by
    rintro rfl
    simp [totalExponent, Int.add_comm]
  have digits : mantissa ≠ 0 → totalExponent mantissa exponent ≤ 53 + d.exponent := fun some =>
    Int.sub_one_lt_iff.mp ((zpow_lt_zpow_iff_right₀ one_lt_two).mp
      ((stands.totalExponent_le some).trans_lt (proper.lt_zpow holds)))
  rw [targetExponent_eq] at fine ⊢
  by_cases subnormal : d.exponent = -1074
  · left
    by_cases some : mantissa = 0
    · have total := noDigits some
      omega
    · have total := digits some
      omega
  · have enough := (zpow_lt_zpow_iff_right₀ one_lt_two).mp
      ((proper.zpow_lt holds subnormal).trans above)
    have some : mantissa ≠ 0 := by
      intro none
      have total := noDigits none
      omega
    have atMost := digits some
    by_cases same : totalExponent mantissa exponent = 53 + d.exponent
    · omega
    · have before : totalExponent mantissa exponent = 52 + d.exponent := by omega
      rw [before] at above
      exact .inr ⟨by omega, proper.power_of_lt holds subnormal above, subnormal⟩

theorem roundsTo_of_holds (proper : d.Proper) (holds : d.interval.Holds v) :
    RoundsTo (v / 2 ^ d.exponent) d.mantissa := by
  obtain ⟨low, high⟩ := (Magnitude.holds_interval_iff proper.positive).mp holds
  have near := d.gap_le
  exact ⟨low.le_trans (by linarith), high⟩

/-- Just below a power of two, where units are half as large, the power of two is nearest. -/
theorem roundsTo_power (proper : d.Proper) (holds : d.interval.Holds v)
    (power : d.mantissa = 2 ^ 52) (normal : d.exponent ≠ -1074)
    (below : v < 2 ^ (52 + d.exponent)) :
    RoundsTo (v / 2 ^ (d.exponent - 1)) (2 ^ 53) := by
  have unit : (0 : Rat) < 2 ^ d.exponent := by positivity
  obtain ⟨low, -⟩ := (Magnitude.holds_interval_iff proper.positive).mp holds
  have quarter : d.gap = 1 / 4 := by
    rw [Magnitude.gap, if_pos (proper.narrow.mpr ⟨power, normal⟩)]
  have low := low.le
  rw [zpow_add₀ two_ne_zero] at below
  have quotient : v / 2 ^ d.exponent < 2 ^ 52 := (div_lt_iff₀ unit).mpr below
  have doubled : v / 2 ^ (d.exponent - 1) = 2 * (v / 2 ^ d.exponent) := by
    rw [zpow_sub₀ two_ne_zero]
    field_simp
  rw [quarter, power] at low
  push_cast at low
  rw [RoundsTo, doubled]
  push_cast
  constructor
  · change _ ≤ _
    linarith
  · change _ ≤ _
    linarith

/-- A double is in units of its last digit already. -/
theorem targetExponent_le (proper : d.Proper) :
    Format.binary64.targetExponent (totalExponent d.mantissa d.exponent) ≤ d.exponent := by
  have lowest := proper.lowest
  have digits : d.mantissa.log2 < 53 := (Nat.log2_lt proper.positive.ne').mpr proper.digits
  rw [targetExponent_eq, totalExponent]
  omega

/-- What rounding comes to, from the results of its two shifts. -/
theorem roundWithAccuracy_of_shifts {first second : ExtendedMantissa} {rounded : Nat}
    {middle last : Int}
    (bulk : shiftToTargetExponent Format.binary64 mantissa exponent accuracy = (first, middle))
    (nearest : first.roundedMantissa = rounded)
    (rest : shiftToTargetExponent Format.binary64 rounded middle .exact = (second, last))
    (positive : 0 < second.mantissa) :
    roundWithAccuracy Format.binary64 sign mantissa exponent accuracy =
      .finite sign second.mantissa last positive := by
  simp only [roundWithAccuracy, bulk, nearest, rest, positive.ne', dite_false]

/-- An exact result in the interval of a double is rounded to the double. -/
theorem roundWithAccuracy_eq (proper : d.Proper) (holds : d.interval.Holds v)
    (stands : StandsFor (ofMantissaAndAccuracy mantissa accuracy) (v / 2 ^ exponent))
    (fine : exponent ≤ Format.binary64.targetExponent (totalExponent mantissa exponent)) :
    roundWithAccuracy Format.binary64 sign mantissa exponent accuracy =
      .finite sign d.mantissa d.exponent proper.positive := by
  have shifted := stands.inUnits fine
  have bulk : shiftToTargetExponent Format.binary64 mantissa exponent accuracy = _ :=
    shiftToExponent_eq fine
  rcases targetExponent_cases proper holds stands fine with same | ⟨before, power, normal⟩
  · rw [same] at shifted bulk
    have nearest := shifted.roundedMantissa_eq (roundsTo_of_holds proper holds)
    have rest : shiftToTargetExponent Format.binary64 d.mantissa d.exponent .exact = _ :=
      shiftToExponent_eq_self (targetExponent_le proper)
    exact roundWithAccuracy_of_shifts bulk nearest rest proper.positive
  · have below : v < 2 ^ (52 + d.exponent) := by
      refine stands.lt_totalExponent.trans_le (zpow_le_zpow_right₀ one_le_two ?_)
      rw [targetExponent_eq] at before
      omega
    rw [before] at shifted bulk
    have nearest := shifted.roundedMantissa_eq (roundsTo_power proper holds power normal below)
    -- The rounded mantissa has one digit too many, which is dropped.
    have target : Format.binary64.targetExponent (totalExponent (2 ^ 53) (d.exponent - 1)) =
        d.exponent := by
      have lowest := proper.lowest
      rw [targetExponent_eq, totalExponent, Nat.log2_two_pow]
      omega
    have rest : shiftToTargetExponent Format.binary64 (2 ^ 53) (d.exponent - 1) .exact =
        ((ofMantissaAndAccuracy (2 ^ 53) .exact).shiftRightOne, d.exponent) := by
      have one : (d.exponent - (d.exponent - 1)).toNat = 1 := by omega
      rw [shiftToTargetExponent, target, shiftToExponent_eq (by omega), one]
      rfl
    have positive : 0 < (ofMantissaAndAccuracy (2 ^ 53) .exact).shiftRightOne.mantissa := by
      decide
    rw [roundWithAccuracy_of_shifts bulk nearest rest positive]
    simp only [power]
    rfl

/-! ### Products and quotients -/

variable {m₁ m₂ : Nat} {e₁ e₂ : Int} {s₁ s₂ : Sign} {positive₁ : 0 < m₁} {positive₂ : 0 < m₂}

/-- A product in the interval of a double is computed as this double. -/
theorem mul_eq (proper : d.Proper) (holds : d.interval.Holds (m₁ * 2 ^ e₁ * (m₂ * 2 ^ e₂)))
    (digits : 2 ^ 53 ≤ m₁ * m₂) :
    UnpackedFloat.mul Format.binary64 (.finite s₁ m₁ e₁ positive₁) (.finite s₂ m₂ e₂ positive₂) =
      .finite (s₁ * s₂) d.mantissa d.exponent proper.positive := by
  have value : (m₁ * 2 ^ e₁ * (m₂ * 2 ^ e₂) : Rat) / 2 ^ (e₁ + e₂) = (m₁ * m₂ : Nat) := by
    rw [zpow_add₀ two_ne_zero]
    push_cast
    field_simp
  have stands := standsFor_exact (m₁ * m₂)
  rw [← value] at stands
  refine roundWithAccuracy_eq proper holds stands ?_
  have log : 53 ≤ (m₁ * m₂).log2 := (Nat.le_log2 (Nat.mul_pos positive₁ positive₂).ne').mpr digits
  rw [targetExponent_eq, totalExponent]
  omega

/-- A whole quotient and its remainder stand for the quotient. -/
theorem standsFor_fraction (n : Nat) (positive : 0 < m) :
    StandsFor (ofMantissaAndAccuracy (n / m) (accuracyOfFraction (n % m) m)) (n / m) := by
  have some : (0 : Rat) < m := by exact_mod_cast positive
  have split : (n : Rat) / m = (n / m : Nat) + (n % m : Nat) / m := by
    field_simp
    exact_mod_cast (Nat.div_add_mod n m).symm
  have proper : n % m < m := Nat.mod_lt n positive
  rw [split, accuracyOfFraction]
  generalize n % m = rest at proper ⊢
  by_cases none : rest = 0
  · rw [if_pos none, none]
    simpa using standsFor_exact (n / m)
  · rw [if_neg none]
    have more : (0 : Rat) < rest / m := by
      have : (0 : Rat) < rest := by exact_mod_cast Nat.pos_of_ne_zero none
      positivity
    have less : (rest : Rat) / m < 1 := (div_lt_one some).mpr (by exact_mod_cast proper)
    cases order : compare (2 * rest) m with
    | lt =>
      have half : (rest : Rat) / m < 1 / 2 := by
        rw [div_lt_div_iff₀ some two_pos, one_mul, mul_comm]
        exact_mod_cast Nat.compare_eq_lt.mp order
      constructor <;> simp [ofMantissaAndAccuracy, halves, more]
      linarith
    | eq =>
      have half : (rest : Rat) / m = 1 / 2 := by
        rw [div_eq_div_iff some.ne' two_ne_zero, one_mul, mul_comm]
        exact_mod_cast Nat.compare_eq_eq.mp order
      constructor <;> simp [ofMantissaAndAccuracy, halves, half]
    | gt =>
      have half : 1 / 2 < (rest : Rat) / m := by
        rw [div_lt_div_iff₀ two_pos some, one_mul, mul_comm (rest : Rat)]
        exact_mod_cast Nat.compare_eq_gt.mp order
      constructor <;> simp [ofMantissaAndAccuracy, halves]
      constructor <;> linarith

/-- The dividend is given as many digits as the quotient needs. -/
theorem divCore_fine (positive₁ : 0 < m₁) (positive₂ : 0 < m₂) (target : Int)
    (isTarget : target = min (e₁ - e₂)
      (Format.binary64.targetExponent (totalExponent m₁ e₁ - totalExponent m₂ e₂))) :
    target ≤ Format.binary64.targetExponent
      (totalExponent (m₁ * 2 ^ (e₁ - e₂ - target).toNat / m₂) target) := by
  rw [targetExponent_eq] at isTarget ⊢
  rcases Int.lt_or_le (-1074) target with high | low
  case inr => omega
  case inl =>
    -- The quotient has 53 digits or more.
    set shift := (e₁ - e₂ - target).toNat with shift_eq
    have digits : ∃ k : Nat, k + m₂.log2 + 1 = m₁.log2 + shift ∧
        totalExponent m₁ e₁ - totalExponent m₂ e₂ = k + 1 + target := by
      unfold totalExponent at isTarget ⊢
      exact ⟨m₁.log2 + shift - m₂.log2 - 1, by omega, by omega⟩
    obtain ⟨k, length, total⟩ := digits
    have dividend : 2 ^ k * m₂ ≤ m₁ * 2 ^ shift := by
      calc 2 ^ k * m₂ ≤ 2 ^ k * 2 ^ (m₂.log2 + 1) := by gcongr; exact Nat.lt_log2_self.le
        _ = 2 ^ m₁.log2 * 2 ^ shift := by rw [← pow_add, ← pow_add, ← length, add_assoc]
        _ ≤ m₁ * 2 ^ shift := by gcongr; exact Nat.log2_self_le positive₁.ne'
    have quotient : 2 ^ k ≤ m₁ * 2 ^ shift / m₂ := (Nat.le_div_iff_mul_le positive₂).mpr dividend
    have log : k ≤ (m₁ * 2 ^ shift / m₂).log2 :=
      (Nat.le_log2 (Nat.two_pow_pos k |>.trans_le quotient).ne').mpr quotient
    rw [totalExponent]
    omega

/-- A quotient in the interval of a double is computed as this double. -/
theorem div_eq (proper : d.Proper) (holds : d.interval.Holds (m₁ * 2 ^ e₁ / (m₂ * 2 ^ e₂))) :
    UnpackedFloat.div Format.binary64 (.finite s₁ m₁ e₁ positive₁) (.finite s₂ m₂ e₂ positive₂) =
      .finite (s₁ / s₂) d.mantissa d.exponent proper.positive := by
  simp only [UnpackedFloat.div, divCore, Nat.shiftLeft_eq]
  generalize isTarget : min (e₁ - e₂)
    (Format.binary64.targetExponent (totalExponent m₁ e₁ - totalExponent m₂ e₂)) = target
  have fine := divCore_fine positive₁ positive₂ target isTarget.symm
  have shift : e₁ = e₂ + target + ((e₁ - e₂ - target).toNat : Int) := by omega
  have value : (m₁ * 2 ^ e₁ / (m₂ * 2 ^ e₂) : Rat) / 2 ^ target =
      (m₁ * 2 ^ (e₁ - e₂ - target).toNat : Nat) / m₂ := by
    have power : (2 : Rat) ^ e₁ = 2 ^ e₂ * 2 ^ target * 2 ^ (e₁ - e₂ - target).toNat := by
      rw [← zpow_natCast, ← zpow_add₀ two_ne_zero, ← zpow_add₀ two_ne_zero, ← shift]
    rw [power]
    push_cast
    field_simp
  have stands := standsFor_fraction (m₁ * 2 ^ (e₁ - e₂ - target).toNat) positive₂
  rw [← value] at stands
  exact roundWithAccuracy_eq proper holds stands fine

end Metrology.Decimal
