import Metrology.Proofs.Composite.Powers
import Metrology.Proofs.Expr.Equality

/-!
# Powers are repeated products

A power of a tree is the canonical form of a product in which the tree is repeated, or its inverse
if the exponent is negative. It is there just if none of its exponents, computed as whole numbers
after everything has cancelled, exceeds the limit. Exponents of powers add up and multiply as those
of a group do.
-/
namespace Metrology.Expr

open Std Composite

universe u

variable {α : Type u}

/-- The product of a tree with itself, as many times as the exponent says, or of its inverse if the
exponent is negative. -/
def repeated (e : Expr α) : Int → Expr α
  | .ofNat k => .mul (.replicate k e)
  | .negSucc k => .mul (.replicate (k + 1) (.frac .noUnit e))

variable [Ord α] [TransOrd α] [LawfulEqOrd α] {e power other : Expr α} {m n : Int}

theorem composite_repeated (e : Expr α) (n : Int) :
    (e.repeated n).composite = e.composite ^ n := by
  cases n with
  | ofNat k =>
    rw [repeated, composite_mul, List.map_replicate, List.prod_replicate]
    exact (zpow_natCast e.composite k).symm
  | negSucc k =>
    have inverse : (frac noUnit e).composite = e.composite⁻¹ := one_div e.composite
    rw [repeated, composite_mul, List.map_replicate, List.prod_replicate, inverse, zpow_negSucc,
      inv_pow]

theorem withinLimit_pow_iff :
    (e.composite ^ n).WithinLimit ↔ ∀ a, (e.signedCount a * n).natAbs ≤ exponentLimit :=
  forall_congr' fun a => by rw [← Composite.zpow_eq_pow, count_zpow, count_composite]

/-- A power is computed on the exponents. -/
theorem powi?_eq_some_iff :
    e.powi? n = some power ↔
      power = ofComposite (e.composite ^ n) ∧ (e.composite ^ n).WithinLimit := by
  rw [powi?, Option.map_eq_some_iff]
  simp only [boundedPowi?_eq_some_iff, Composite.zpow_eq_pow]
  constructor
  · rintro ⟨raised, ⟨rfl, within⟩, rfl⟩
    exact ⟨rfl, within⟩
  · rintro ⟨rfl, within⟩
    exact ⟨_, ⟨rfl, within⟩, rfl⟩

theorem composite_of_powi? (raised : e.powi? n = some power) :
    power.composite = e.composite ^ n := by
  rw [(powi?_eq_some_iff.mp raised).1, composite_ofComposite]

theorem reduce_eq_of_powi? (raised : e.powi? n = some power)
    (same : other.composite = e.composite ^ n) : other.reduce = power := by
  rw [(powi?_eq_some_iff.mp raised).1, reduce, same]

/-- A power of a power is the power with the product of the exponents. -/
theorem powi?_powi? (raised : e.powi? m = some power) :
    power.powi? n = some other ↔ e.powi? (m * n) = some other := by
  rw [powi?_eq_some_iff, powi?_eq_some_iff, composite_of_powi? raised, zpow_mul]

variable [DecidableEq α]

/-- A power is the canonical form of the repeated product, it is there just if none of its exponents
exceeds the limit, and exponents of powers add up and multiply. -/
theorem powers_are_repeated_products (e : Expr α) (m n : Int) :
    (∀ power, e.powi? n = some power ↔
      (∀ a, (e.signedCount a * n).natAbs ≤ exponentLimit) ∧ power = (e.repeated n).reduce) ∧
    (∀ power, e.powi? n = some power → power.isCanonical = true) ∧
    e.powi? 0 = some noUnit ∧
    (∀ left right, e.powi? m = some left → e.powi? n = some right →
      (mul [left, right]).reduce = (e.repeated (m + n)).reduce ∧
      ∀ power, e.powi? (m + n) = some power → (mul [left, right]).reduce = power) ∧
    (∀ base, e.powi? m = some base → ∀ power,
      base.powi? n = some power ↔ e.powi? (m * n) = some power) := by
  refine ⟨fun power => ?product, fun power raised => ?canonical, ?none, ?sum, fun _ raised _ =>
    powi?_powi? raised⟩
  case product =>
    rw [powi?_eq_some_iff, withinLimit_pow_iff, and_comm, reduce, composite_repeated]
  case canonical =>
    rw [(powi?_eq_some_iff.mp raised).1]
    exact isCanonical_ofComposite _
  case none =>
    refine powi?_eq_some_iff.mpr ⟨by rw [zpow_zero]; rfl, fun a => ?_⟩
    rw [zpow_zero, count_one]
    exact Nat.zero_le _
  case sum =>
    intro left right first second
    have product : (mul [left, right]).composite = e.composite ^ (m + n) := by
      simp [composite_mul, composite_of_powi? first, composite_of_powi? second, zpow_add]
    refine ⟨reduce_eq_iff.mpr (product.trans (composite_repeated e _).symm), fun power raised => ?_⟩
    exact reduce_eq_of_powi? raised product

example : (frac (atom "m") (atom "m")).powi? (-2147483648) = some noUnit := by decide +kernel

/-- An acceleration. -/
def acceleration : Expr String := frac (atom "m") (mul [atom "s", atom "s"])

/-- An acceleration has a five hundredth power but no higher one, as its time counts double. -/
theorem acceleration_to_the_limit :
    (∃ power, acceleration.powi? 500 = some power ∧ power.isCanonical = true) ∧
      acceleration.powi? 501 = none := by
  have within : ∀ a, (acceleration.signedCount a * 500).natAbs ≤ exponentLimit := by
    intro a
    simp only [acceleration, signedCount, signedCountOfTerms, exponentLimit]
    omega
  have laws := powers_are_repeated_products acceleration 0
  constructor
  · have raised := ((laws 500).1 _).mpr ⟨within, rfl⟩
    exact ⟨_, raised, (laws 500).2.1 _ raised⟩
  · refine Option.eq_none_iff_forall_ne_some.mpr fun power raised => ?_
    have bounded := (((laws 501).1 power).mp raised).1 "s"
    exact absurd bounded (by decide +kernel)

end Metrology.Expr
