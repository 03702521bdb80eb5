import Mathlib.Algebra.BigOperators.Group.List.Lemmas
import Mathlib.Algebra.Group.ULift
import Metrology.Expr.Lemmas
import Metrology.Proofs.Composite.Group

/-!
# Canonical forms decide equality of units

Two trees have the same canonical form exactly when they denote the same element under every
reading of their atoms in every commutative group, and exactly when every atom occurs equally
often in both, occurrences below a fraction bar being counted negatively. One direction is that
reading a tree factors through its composite (`eval_composite`); for the other, counting one atom
is itself a reading in a group.
-/
namespace Metrology.Expr

open Std Composite

universe u v w

variable {α : Type u}

/-! ### Readings in groups -/

section Value

variable {G : Type v} {H : Type w} [CommGroup G] [CommGroup H]

theorem value_mul (f : α → G) (terms : List (Expr α)) :
    (mul terms).value f = (terms.map (value f)).prod := by
  change valueOfTerms f terms = _
  induction terms with
  | nil => rfl
  | cons term terms ih => rw [valueOfTerms, ih, List.map_cons, List.prod_cons]

/-- Homomorphisms can be applied to the readings of the atoms. -/
theorem map_value (φ : G →* H) (f : α → G) (e : Expr α) :
    φ (e.value f) = e.value fun a => φ (f a) := by
  induction e using induct with
  | noUnit => exact map_one φ
  | atom a => rfl
  | mul terms ih =>
    rw [value_mul, value_mul, map_list_prod, List.map_map]
    exact congrArg List.prod (List.map_congr_left ih)
  | frac num den above below =>
    have parts := map_div φ (num.value f) (den.value f)
    rw [above, below] at parts
    exact parts

end Value

variable [Ord α]

/-! ### Occurrences -/

mutual

/-- How often an atom occurs above the fraction bars less how often it occurs below; what stands
below a bar that is itself below a bar is above. -/
def signedCount (a : α) : Expr α → Int
  | noUnit => 0
  | atom b => if compare b a = .eq then 1 else 0
  | mul terms => signedCountOfTerms a terms
  | frac num den => num.signedCount a - den.signedCount a

/-- The occurrences in the terms of a product. -/
def signedCountOfTerms (a : α) : List (Expr α) → Int
  | [] => 0
  | term :: terms => term.signedCount a + signedCountOfTerms a terms

end

variable [TransOrd α]

theorem composite_frac (num den : Expr α) :
    (frac num den).composite = num.composite / den.composite := rfl

/-- Flattening a tree counts the occurrences of its atoms. -/
theorem count_composite (e : Expr α) (a : α) : e.composite.count a = e.signedCount a := by
  induction e using induct with
  | noUnit => rfl
  | atom b => exact count_single a b
  | mul terms ih =>
    change (mul terms).composite.count a = signedCountOfTerms a terms
    induction terms with
    | nil => rfl
    | cons term terms later =>
      rw [count_composite_mul_cons, signedCountOfTerms, ih term (by simp),
        later fun other member => ih other (by simp [member])]
  | frac num den above below => rw [count_composite_frac, signedCount, above, below]

variable [LawfulEqOrd α]

/-- A reading of a tree depends on its composite only. -/
theorem eval_composite {G : Type v} [CommGroup G] (f : α → G) (e : Expr α) :
    Composite.eval f e.composite = e.value f := by
  rw [composite, map_value]
  simp only [eval_single]

/-- Read literally, a composite denotes itself. -/
theorem eval_single_self (c : Composite α) : Composite.eval Composite.single c = c := by
  have literal := eval_composite Composite.single (ofComposite c)
  rw [← composite, composite_ofComposite] at literal
  exact literal

/-- Trees that denote the same in every group count every atom equally often. -/
theorem composite_eq_of_value_eq {x y : Expr α}
    (same : ∀ (G : Type v) [CommGroup G] (f : α → G), x.value f = y.value f) :
    x.composite = y.composite := by
  refine ext_count fun a => ?_
  -- Counting `a` is a reading in the integers, lifted to the universe that was asked for.
  let reading : Composite α →* ULift.{v} (Multiplicative Int) :=
    MulEquiv.ulift.symm.toMonoidHom.comp (counting a)
  have counted := same (ULift.{v} (Multiplicative Int)) fun b => reading (.single b)
  rw [← map_value reading, ← map_value reading] at counted
  exact congrArg (fun n => n.down.toAdd) counted

theorem composite_mul (terms : List (Expr α)) :
    (mul terms).composite = (terms.map composite).prod :=
  value_mul (Composite.single (α := α)) terms

/-! ### Equality -/

theorem reduce_eq_iff_value {x y : Expr α} :
    x.reduce = y.reduce ↔
      ∀ (G : Type v) [CommGroup G] (f : α → G), x.value f = y.value f := by
  rw [reduce_eq_iff]
  constructor
  · -- A reading factors through the composite.
    intro same G _ f
    rw [← eval_composite, ← eval_composite, same]
  · exact composite_eq_of_value_eq

theorem reduce_eq_iff_signedCount {x y : Expr α} :
    x.reduce = y.reduce ↔ ∀ a, x.signedCount a = y.signedCount a := by
  simp only [reduce_eq_iff, ← count_composite]
  exact ⟨fun same a => by rw [same], ext_count⟩

/-- Canonical forms decide equality in all commutative groups and count signed occurrences. The
laws of products and quotients follow. -/
theorem reduce_decides_equality (x y z : Expr α) :
    (x.reduce = y.reduce ↔
      ∀ (G : Type v) [CommGroup G] (f : α → G), x.value f = y.value f) ∧
    (x.reduce = y.reduce ↔ ∀ a, x.signedCount a = y.signedCount a) ∧
    x.reduce.reduce = x.reduce ∧
    (∀ xs ys : List (Expr α), xs.Perm ys → (mul xs).reduce = (mul ys).reduce) ∧
    (∀ xs ys zs : List (Expr α),
      (mul (xs ++ mul ys :: zs)).reduce = (mul (xs ++ ys ++ zs)).reduce) ∧
    (mul [mul [x, y], z]).reduce = (mul [x, mul [y, z]]).reduce ∧
    (mul [x, noUnit]).reduce = x.reduce ∧ (mul [noUnit, x]).reduce = x.reduce ∧
    (frac x noUnit).reduce = x.reduce ∧
    (frac x x).reduce = noUnit := by
  refine ⟨reduce_eq_iff_value, reduce_eq_iff_signedCount, reduce_reduce x, ?_, ?_, ?_, ?_, ?_, ?_, ?_⟩
  · -- Each law below is one of the group that composites form.
    intro xs ys permuted
    rw [reduce_eq_iff, composite_mul, composite_mul]
    exact (permuted.map composite).prod_eq
  · intro xs ys zs
    simp only [reduce_eq_iff, composite_mul, List.map_append, List.map_cons, List.prod_append,
      List.prod_cons, mul_assoc]
  · simp [reduce_eq_iff, composite_mul, mul_assoc]
  · simp [reduce_eq_iff, composite_mul]
  · simp [reduce_eq_iff, composite_mul]
  · simp [reduce_eq_iff, composite_frac]
  · have cancelled : (frac x x).composite = 1 := div_self' x.composite
    rw [reduce, cancelled]
    rfl

theorem reduce_acceleration :
    (frac (frac (atom "m") (atom "s")) (atom "s")).reduce
      = (frac (mul [atom "m", atom "s"]) (mul [atom "s", mul [atom "s", atom "s"]])).reduce := by
  apply (reduce_decides_equality.{0, 0} _ _ noUnit).2.1.mpr
  intro a
  simp only [signedCount, signedCountOfTerms]
  omega

end Metrology.Expr
