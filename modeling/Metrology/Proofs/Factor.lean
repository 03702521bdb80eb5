import Mathlib.Algebra.Order.Field.Rat
import Mathlib.Algebra.Order.Ring.Int
import Mathlib.Algebra.Order.Ring.Unbundled.Rat
import Mathlib.Data.Rat.Lemmas
import Mathlib.Tactic.Ring
import Metrology.MetricPrefix

/-!
# Factors are exact and stay positive

An operation on factors that has a result has the exact one, and the result fits. A power has one
whenever it fits itself (`powi?_eq_some_iff`): no number on the way to it is larger. Factors of units
are positive, as they start from positive words and are multiplied by powers of ten.
-/
namespace Metrology

namespace Factor

variable {f g h : Factor}

/-! ### Exactness -/

theorem fits_iff :
    fits f = true ↔ -bound ≤ f.num ∧ f.num < bound ∧ (f.den : Int) < bound := by
  simp [fits, and_assoc]

theorem checked_eq_some_iff : checked f = some g ↔ g = f ∧ fits f = true := by
  unfold checked
  by_cases fit : fits f = true <;> simp [fit, eq_comm]

theorem mul?_eq_some_iff : mul? f g = some h ↔ h = f * g ∧ fits (f * g) = true :=
  checked_eq_some_iff

theorem div?_eq_some_iff : div? f g = some h ↔ g ≠ 0 ∧ h = f / g ∧ fits (f / g) = true := by
  unfold div?
  split <;> simp_all [checked_eq_some_iff]

/-- The loop multiplies by the power that is left when the lowest digit, which the product has taken
already, is dropped from the exponent. -/
theorem eq_of_powLoop? {acc : Factor} {n : Nat} (found : powLoop? acc f n = some g) :
    g = acc * f ^ (2 * (n / 2)) := by
  -- The recursion halves the exponent.
  induction n using Nat.strong_induction_on generalizing acc f with
  | _ n ih =>
    unfold powLoop? at found
    split at found
    next last =>
      have none : n / 2 = 0 := by omega
      obtain rfl := Option.some.inj found
      rw [none, Nat.mul_zero, pow_zero, mul_one]
    next further =>
      simp only [bind, Option.bind_eq_some_iff, mul?_eq_some_iff] at found
      obtain ⟨square, ⟨rfl, -⟩, later⟩ := found
      split at later
      next odd =>
        -- The digit one stands for one square more.
        simp only [Option.bind_eq_some_iff, mul?_eq_some_iff] at later
        obtain ⟨product, ⟨rfl, -⟩, later⟩ := later
        rw [ih (n / 2) (by omega) later, ← pow_two, ← pow_mul, mul_assoc, ← pow_add]
        exact congrArg (acc * f ^ ·) (by omega)
      next even =>
        rw [ih (n / 2) (by omega) later, ← pow_two, ← pow_mul]
        exact congrArg (acc * f ^ ·) (by omega)

theorem eq_pow_of_pow? {n : Nat} (found : pow? f n = some g) : g = f ^ n := by
  induction n using Nat.strong_induction_on generalizing f with
  | _ n ih =>
    unfold pow? at found
    split at found
    next isZero => simp_all
    split at found
    next odd =>
      rw [eq_of_powLoop? found, ← pow_succ']
      exact congrArg (f ^ ·) (by omega)
    next even =>
      simp only [bind, Option.bind_eq_some_iff, mul?_eq_some_iff] at found
      obtain ⟨square, ⟨rfl, -⟩, power⟩ := found
      rw [ih (n / 2) (by omega) power, ← pow_two, ← pow_mul]
      exact congrArg (f ^ ·) (by omega)

theorem zpow_eq_pow {n : Int} (nonnegative : 0 ≤ n) : f ^ n = f ^ n.natAbs := by
  have size : n = (n.natAbs : Int) := by omega
  rw [size, zpow_natCast, ← size]

theorem zpow_eq_inv_pow {n : Int} (negative : n < 0) : f ^ n = f⁻¹ ^ n.natAbs := by
  have size : n = -(n.natAbs : Int) := by omega
  rw [size, zpow_neg, zpow_natCast, inv_pow, ← size]

theorem eq_zpow_of_powi? {n : Int} (found : powi? f n = some g) : g = f ^ n := by
  simp only [powi?, bind] at found
  split at found
  next negative =>
    obtain ⟨base, reciprocal, power⟩ := Option.bind_eq_some_iff.mp found
    obtain ⟨-, rfl, -⟩ := div?_eq_some_iff.mp reciprocal
    rw [eq_pow_of_pow? power, one_div, zpow_eq_inv_pow negative]
  next notNegative =>
    rw [eq_pow_of_pow? found, zpow_eq_pow (Int.not_lt.mp notNegative)]

/-! ### Powers that fit -/

/-- Nothing of a positive number can be too small. -/
theorem fits_iff_of_pos (positive : 0 < f) :
    fits f = true ↔ f.num < bound ∧ (f.den : Int) < bound := by
  have above := Rat.num_pos.mpr positive
  rw [fits_iff]
  unfold bound
  omega

theorem fits_one : fits 1 = true := by decide +kernel

theorem num_inv_of_pos (positive : 0 < f) : f⁻¹.num = f.den := by
  rw [Rat.num_inv, Int.sign_eq_one_of_pos (Rat.num_pos.mpr positive), one_mul]

theorem den_inv_of_pos (positive : 0 < f) : (f⁻¹.den : Int) = f.num := by
  have above := Rat.num_pos.mpr positive
  rw [Rat.den_inv_of_ne_zero positive.ne']
  omega

/-- The reciprocal of a number that fits does so too: its two parts change places. -/
theorem fits_inv (positive : 0 < f) (fit : fits f = true) : fits f⁻¹ = true := by
  obtain ⟨num, den⟩ := (fits_iff_of_pos positive).mp fit
  rw [fits_iff_of_pos (inv_pos.mpr positive), num_inv_of_pos positive, den_inv_of_pos positive]
  exact ⟨den, num⟩

/-- The parts of powers only grow, so that all powers below one that fits do so. -/
theorem fits_pow_of_le (positive : 0 < f) {k n : Nat} (below : k ≤ n)
    (fit : fits (f ^ n) = true) : fits (f ^ k) = true := by
  have aboveZero := Rat.num_pos.mpr positive
  have denPositive := f.den_pos
  obtain ⟨num, den⟩ := (fits_iff_of_pos (pow_pos positive n)).mp fit
  rw [fits_iff_of_pos (pow_pos positive k), Rat.num_pow, Rat.den_pow]
  rw [Rat.num_pow] at num
  rw [Rat.den_pow] at den
  have smallerNum : f.num ^ k ≤ f.num ^ n := pow_le_pow_right₀ aboveZero below
  have smallerDen : f.den ^ k ≤ f.den ^ n := Nat.pow_le_pow_right denPositive below
  omega

/-- A product of two powers is computed whenever some power that is not smaller fits. -/
theorem mul?_pow (positive : 0 < f) {j k n : Nat} (below : j + k ≤ n)
    (fit : fits (f ^ n) = true) : mul? (f ^ j) (f ^ k) = some (f ^ (j + k)) := by
  rw [mul?_eq_some_iff, ← pow_add]
  exact ⟨rfl, fits_pow_of_le positive below fit⟩

/-- The loop meets powers only that are not larger than the result, so that it comes to an end if that
fits. -/
theorem powLoop?_eq_some (positive : 0 < f) {j k n : Nat}
    (fit : fits (f ^ (j + k * (2 * (n / 2)))) = true) :
    powLoop? (f ^ j) (f ^ k) n = some (f ^ (j + k * (2 * (n / 2)))) := by
  -- What is left of the exponent is counted in squares, and there is one at least.
  induction n using Nat.strong_induction_on generalizing j k with
  | _ n ih =>
    unfold powLoop?
    split
    next last =>
      have none : n / 2 = 0 := by omega
      simp only [none, Nat.mul_zero, Nat.add_zero]
    next further =>
      obtain ⟨left, half⟩ : ∃ left, n / 2 = left + 1 := ⟨n / 2 - 1, by omega⟩
      have size : j + k * (2 * (n / 2)) = j + (k + k) + (k + k) * left := by
        rw [half]
        ring
      rw [size] at fit ⊢
      -- The next square is part of the result, and so is what the product becomes with it.
      rw [mul?_pow positive (by omega) fit, Option.bind_eq_bind, Option.bind_some]
      split
      next odd =>
        have digits : j + (k + k) + (k + k) * left
            = j + (k + k) + (k + k) * (2 * (n / 2 / 2)) := by
          have even : left = 2 * (n / 2 / 2) := by omega
          rw [← even]
        rw [mul?_pow positive (by omega) fit, Option.bind_some, digits]
        exact ih (n / 2) (by omega) (digits ▸ fit)
      next even =>
        have digits : j + (k + k) + (k + k) * left = j + (k + k) * (2 * (n / 2 / 2)) := by
          have whole : 2 * (n / 2 / 2) = left + 1 := by omega
          rw [whole]
          ring
        rw [digits]
        exact ih (n / 2) (by omega) (digits ▸ fit)

/-- So does the squaring before the loop. -/
theorem pow?_pow_eq_some (positive : 0 < f) {k n : Nat} (fit : fits (f ^ (k * n)) = true) :
    pow? (f ^ k) n = some (f ^ (k * n)) := by
  induction n using Nat.strong_induction_on generalizing k with
  | _ n ih =>
    unfold pow?
    split
    next isZero => rw [isZero, Nat.mul_zero, pow_zero]
    split
    next odd =>
      have digits : k * n = k + k * (2 * (n / 2)) := by
        have size : k * n = k * (1 + 2 * (n / 2)) := congrArg (k * ·) (by omega)
        rw [size, Nat.mul_add, Nat.mul_one]
      rw [digits] at fit ⊢
      exact powLoop?_eq_some positive fit
    next even =>
      have digits : k * n = (k + k) * (n / 2) := by
        have size : k * n = k * (2 * (n / 2)) := congrArg (k * ·) (by omega)
        rw [size, ← Nat.mul_assoc, Nat.mul_two]
      -- An even exponent that is not zero is two at least.
      have square : k + k ≤ k * n := by
        rw [digits]
        exact Nat.le_mul_of_pos_right _ (by omega)
      rw [mul?_pow positive square fit, Option.bind_eq_bind, Option.bind_some, digits]
      exact ih (n / 2) (by omega) (digits ▸ fit)

theorem pow?_eq_some (positive : 0 < f) {n : Nat} (fit : fits (f ^ n) = true) :
    pow? f n = some (f ^ n) := by
  have power := pow?_pow_eq_some (k := 1) positive (n := n)
  rw [pow_one, Nat.one_mul] at power
  exact power fit

theorem fits_of_powLoop? {acc : Factor} (fit : fits acc = true) {n : Nat}
    (found : powLoop? acc f n = some g) : fits g = true := by
  induction n using Nat.strong_induction_on generalizing acc f with
  | _ n ih =>
    unfold powLoop? at found
    split at found
    next last =>
      obtain rfl := Option.some.inj found
      exact fit
    next further =>
      simp only [bind, Option.bind_eq_some_iff] at found
      obtain ⟨square, -, later⟩ := found
      split at later
      next odd =>
        obtain ⟨product, taken, later⟩ := Option.bind_eq_some_iff.mp later
        obtain ⟨rfl, productFits⟩ := mul?_eq_some_iff.mp taken
        exact ih (n / 2) (by omega) productFits later
      next even => exact ih (n / 2) (by omega) fit later

theorem fits_of_pow? (fit : fits f = true) {n : Nat} (found : pow? f n = some g) :
    fits g = true := by
  induction n using Nat.strong_induction_on generalizing f with
  | _ n ih =>
    unfold pow? at found
    split at found
    next isZero =>
      obtain rfl := Option.some.inj found
      exact fits_one
    split at found
    next odd => exact fits_of_powLoop? fit found
    next even =>
      simp only [bind, Option.bind_eq_some_iff, mul?_eq_some_iff] at found
      obtain ⟨square, ⟨rfl, squareFits⟩, power⟩ := found
      exact ih (n / 2) (by omega) squareFits power

/-- A natural power of a factor exists exactly if it fits. -/
theorem pow?_eq_some_iff (positive : 0 < f) (fit : fits f = true) {n : Nat} :
    pow? f n = some g ↔ g = f ^ n ∧ fits (f ^ n) = true := by
  constructor
  · intro found
    obtain rfl := eq_pow_of_pow? found
    exact ⟨rfl, fits_of_pow? fit found⟩
  · rintro ⟨rfl, powerFits⟩
    exact pow?_eq_some positive powerFits

/-- An integer power of a factor exists exactly if it fits. -/
theorem powi?_eq_some_iff (positive : 0 < f) (fit : fits f = true) {n : Int} :
    powi? f n = some g ↔ g = f ^ n ∧ fits (f ^ n) = true := by
  simp only [powi?, bind]
  split
  next negative =>
    have reciprocal : div? 1 f = some f⁻¹ := by
      rw [div?_eq_some_iff, one_div]
      exact ⟨positive.ne', rfl, fits_inv positive fit⟩
    rw [reciprocal, Option.bind_some, zpow_eq_inv_pow negative]
    exact pow?_eq_some_iff (inv_pos.mpr positive) (fits_inv positive fit)
  next notNegative =>
    rw [Option.bind_some, zpow_eq_pow (Int.not_lt.mp notNegative)]
    exact pow?_eq_some_iff positive fit

/-! ### Numerators and denominators of powers -/

theorem num_den_zpow_of_nonneg {n : Int} (nonnegative : 0 ≤ n) :
    (f ^ n).num = f.num ^ n.natAbs ∧ (f ^ n).den = f.den ^ n.natAbs := by
  rw [zpow_eq_pow nonnegative, Rat.num_pow, Rat.den_pow]
  exact ⟨rfl, rfl⟩

/-- For a negative exponent they change places. -/
theorem num_den_zpow_of_neg (positive : 0 < f) {n : Int} (negative : n < 0) :
    (f ^ n).num = f.den ^ n.natAbs ∧ ((f ^ n).den : Int) = f.num ^ n.natAbs := by
  rw [zpow_eq_inv_pow negative, Rat.num_pow, Rat.den_pow, Nat.cast_pow, num_inv_of_pos positive,
    den_inv_of_pos positive]
  exact ⟨rfl, rfl⟩

theorem fits_zpow_iff (positive : 0 < f) {n : Int} :
    fits (f ^ n) = true ↔ f.num ^ n.natAbs < bound ∧ (f.den : Int) ^ n.natAbs < bound := by
  rw [fits_iff_of_pos (zpow_pos positive n)]
  rcases Int.lt_or_le n 0 with negative | nonnegative
  · obtain ⟨num, den⟩ := num_den_zpow_of_neg positive negative
    rw [num, den, and_comm]
  · obtain ⟨num, den⟩ := num_den_zpow_of_nonneg (f := f) nonnegative
    rw [num, den, Nat.cast_pow]

/-- A power of a positive factor is computed exactly if the powers of its numerator and denominator
fit, so that no square on the way ever stands in the way of a result that does; and the result is
the power in lowest terms. -/
theorem powers_are_exact (positive : 0 < f) (fit : fits f = true) (n : Int) :
    ((∃ g, powi? f n = some g) ↔
      f.num ^ n.natAbs < bound ∧ (f.den : Int) ^ n.natAbs < bound) ∧
    ∀ g, powi? f n = some g →
      g = f ^ n ∧ 0 < g.den ∧ g.num.natAbs.Coprime g.den ∧
      (0 ≤ n → g.num = f.num ^ n.natAbs ∧ g.den = f.den ^ n.natAbs) ∧
      (n < 0 → g.num = f.den ^ n.natAbs ∧ (g.den : Int) = f.num ^ n.natAbs) := by
  constructor
  · rw [← fits_zpow_iff positive]
    simp only [powi?_eq_some_iff positive fit, exists_eq_left]
  · intro g found
    obtain rfl := eq_zpow_of_powi? found
    exact ⟨rfl, Rat.den_pos _, Rat.reduced _, num_den_zpow_of_nonneg, num_den_zpow_of_neg positive⟩

/-- The eightieth power of three fits and the next one does not, although its 64th power, the largest
square that is met on the way, does; one has every power. -/
theorem powers_of_three_halves :
    powi? (3 / 2) (-80) = some (2 ^ 80 / 3 ^ 80) ∧ powi? (3 / 2) 81 = none ∧
      powi? 1 (-2147483648) = some 1 := by
  have half : (3 / 2 : Factor).num = 3 ∧ (3 / 2 : Factor).den = 2 := by decide +kernel
  have fit : fits (3 / 2) = true := by decide +kernel
  refine ⟨?_, ?_, ?_⟩
  · obtain ⟨exists_iff, exact⟩ := powers_are_exact (by decide +kernel) fit (-80)
    rw [half.1, half.2] at exists_iff
    obtain ⟨g, found⟩ := exists_iff.mpr (by decide +kernel)
    rw [found, (exact g found).1]
    decide +kernel
  · obtain ⟨exists_iff, -⟩ := powers_are_exact (by decide +kernel) fit 81
    rw [half.1, half.2] at exists_iff
    refine Option.eq_none_iff_forall_ne_some.mpr fun g found => ?_
    exact absurd (exists_iff.mp ⟨g, found⟩) (by decide +kernel)
  · obtain ⟨exists_iff, exact⟩ := powers_are_exact (f := 1) (by decide +kernel) fits_one (-2147483648)
    rw [Rat.num_one, Rat.den_one, Nat.cast_one, one_pow] at exists_iff
    obtain ⟨g, found⟩ := exists_iff.mpr (by decide +kernel)
    rw [found, (exact g found).1, one_zpow]

/-! ### Factors of units -/

/-- The word factor is the exact ratio, and words fit. -/
theorem ofWords?_eq_some {num den : UInt64} (found : ofWords? num den = some f) :
    0 < f ∧ fits f = true := by
  unfold ofWords? at found
  split at found
  · cases found
  next proper =>
    simp only [Bool.or_eq_true, decide_eq_true_eq, not_or, ← UInt64.toNat_inj,
      UInt64.toNat_zero] at proper
    obtain ⟨numNonzero, denNonzero⟩ := proper
    obtain rfl : mkRat num.toNat den.toNat = f := by simpa using found
    -- In lowest terms neither number is larger than the word that was given.
    have positive : 0 < mkRat (num.toNat : Int) den.toNat :=
      Rat.mkRat_pos (by omega) denNonzero
    have numerator : (mkRat (num.toNat : Int) den.toNat).num ≤ num.toNat :=
      Int.le_of_dvd (by omega) (Rat.num_dvd num.toNat (b := den.toNat) (by omega))
    have denominator : ((mkRat (num.toNat : Int) den.toNat).den : Int) ≤ den.toNat :=
      Int.le_of_dvd (by omega) (Rat.den_dvd num.toNat den.toNat)
    have above := Rat.num_pos.mpr positive
    have numWord := num.toNat_lt
    have denWord := den.toNat_lt
    refine ⟨positive, fits_iff.mpr ?_⟩
    unfold bound
    omega

theorem mul?_pos (product : mul? f g = some h) (left : 0 < f) (right : 0 < g) :
    0 < h ∧ fits h = true := by
  obtain ⟨rfl, fit⟩ := mul?_eq_some_iff.mp product
  exact ⟨mul_pos left right, fit⟩

end Factor

theorem MetricPrefix.factor_pos {metric : MetricPrefix} {f : Factor}
    (found : metric.factor = some f) : 0 < f := by
  rw [Factor.eq_zpow_of_powi? found]
  exact zpow_pos (by decide) metric.power

end Metrology
