import Mathlib.Algebra.Field.Rat
import Mathlib.Tactic.LinearCombination
import Metrology.Affine
import Metrology.Proofs.Factor

/-!
# Rationals as scalars

Over the rationals the arithmetic of conversions is what it is meant to be. The power that is
computed by repeated squaring is the power (`Scalar.powi_eq_zpow`), a factor is applied by
multiplying with it, and an affine transform that is undone by another one undoes it as well.
-/
namespace Metrology

/-! ### Powers -/

namespace Scalar

theorem ofInt_eq_cast (n : Int) : (ofInt n : Rat) = n := rfl

/-- The loop keeps `acc * base ^ exponent`. -/
theorem powerLoop_eq (acc base : Rat) (exponent : Nat) :
    powerLoop acc base exponent = acc * base ^ exponent := by
  induction exponent using Nat.strong_induction_on generalizing acc base with
  | _ exponent ih =>
    rw [powerLoop]
    split
    next done => rw [done, pow_zero, mul_one]
    next more =>
      -- The base is squared for each digit, so that half of the exponent is left.
      rw [ih (exponent / 2) (by omega), ← pow_two, ← pow_mul]
      split
      next odd =>
        have size : exponent = 1 + 2 * (exponent / 2) := by omega
        rw [mul_assoc, ← pow_succ', Nat.add_comm, ← size]
      next even =>
        have size : exponent = 2 * (exponent / 2) := by omega
        rw [← size]

theorem powi_eq_zpow (base : Rat) (n : Int) : powi base n = base ^ n := by
  have power : powerLoop (ofInt 1) base n.natAbs = base ^ n.natAbs := by
    rw [powerLoop_eq, ofInt_eq_cast, Int.cast_one, one_mul]
  simp only [powi, power]
  split
  next negative =>
    have size : n = -(n.natAbs : Int) := by omega
    rw [ofInt_eq_cast, Int.cast_one, one_div, ← zpow_natCast, ← zpow_neg, ← size]
  next positive =>
    have size : n = (n.natAbs : Int) := by omega
    rw [← zpow_natCast, ← size]

end Scalar

/-! ### Factors -/

namespace Factor

theorem toScalar_eq (f : Factor) : (toScalar f : Rat) = f := by
  rw [toScalar, Scalar.ofInt_eq_cast, Scalar.ofInt_eq_cast, Int.cast_natCast]
  exact Rat.num_div_den f

theorem apply_eq_mul (f : Factor) (value : Rat) : f.apply value = value * f := by
  rw [apply]
  split
  next isOne => rw [isOne, mul_one]
  next => rw [mul_div_assoc, ← toScalar, toScalar_eq]

theorem unapply_eq_div (f : Factor) (value : Rat) : f.unapply value = value / f := by
  rw [unapply]
  split
  next isOne => rw [isOne, div_one]
  next => rw [mul_div_assoc, ← inv_div, ← toScalar, toScalar_eq, div_eq_mul_inv]

end Factor

/-! ### Affine transforms -/

/-- A transform that is undone by another one undoes it as well. -/
theorem Affine.apply_apply_comm {forward backward : Affine Rat}
    (undone : ∀ x, backward.apply (forward.apply x) = x) (x : Rat) :
    forward.apply (backward.apply x) = x := by
  have atZero := undone 0
  have atOne := undone 1
  simp only [Affine.apply] at atZero atOne ⊢
  -- The slopes are inverse to each other, and the offsets cancel out.
  have slopes : forward.slope * backward.slope = 1 := by linear_combination atOne - atZero
  linear_combination (x - forward.offset) * slopes + forward.slope * atZero

end Metrology
