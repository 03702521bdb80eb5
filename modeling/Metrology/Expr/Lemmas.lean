import Metrology.Composite.Lemmas
import Metrology.Expr.Basic

/-!
# Canonical forms of expressions

The composite of a tree counts each atom as often as it occurs above the fraction bars less as
often as it occurs below (`count_composite_mul`, `count_composite_frac`). Spelling a composite out
loses nothing (`composite_ofComposite`), so that two trees have the same canonical form exactly
when they have the same composite (`reduce_eq_iff`) and canonical forms stay as they are.
-/
namespace Metrology

open Std

universe u

variable {α : Type u} [Ord α]

/-! ### Counting atoms in lists -/

namespace Composite

def mentions (a : α) (atoms : List α) : Nat := atoms.countP fun b => compare b a == .eq

theorem mentions_occurrences (a : α) (entries : List (α × Int)) :
    (mentions a (occurrences entries) : Int)
      = total a (entries.map fun entry => (entry.1, (entry.2.natAbs : Int))) := by
  induction entries with
  | nil => rfl
  | cons entry rest ih =>
    simp only [mentions, occurrences, List.flatMap_cons, List.countP_append, List.map_cons,
      total_cons, List.countP_replicate, Int.natCast_add] at ih ⊢
    rw [ih]
    split <;> simp_all

theorem mentions_numerator (c : Composite α) (a : α) :
    (mentions a c.numerator : Int) = total a c.above := by
  rw [numerator, mentions_occurrences]
  congr 1
  refine (List.map_congr_left fun entry member => ?_).trans (List.map_id _)
  have positive : 0 < entry.2 := by simpa [above] using (List.mem_filter.mp member).2
  exact Prod.ext rfl (by simp; omega)

theorem mentions_denominator (c : Composite α) (a : α) :
    (mentions a c.denominator : Int) = -total a c.below := by
  have negated : c.below.map (fun entry => (entry.1, (entry.2.natAbs : Int)))
      = c.below.map fun entry => (entry.1, entry.2 * -1) := by
    refine List.map_congr_left fun entry member => ?_
    have negative : entry.2 < 0 := by simpa [below] using (List.mem_filter.mp member).2
    exact Prod.ext rfl (by simp; omega)
  -- Magnitudes below the bar are negated counts.
  rw [denominator, mentions_occurrences, negated, total_scaled]
  simp

/-- Every count stands on one side of the bar. -/
theorem total_above_add_total_below (c : Composite α) (a : α) :
    total a c.above + total a c.below = total a c.entries := by
  unfold above below
  induction c.entries with
  | nil => rfl
  | cons entry rest ih =>
    simp only [List.filter_cons, total_cons]
    by_cases positive : 0 < entry.2
    · have side : ¬ entry.2 < 0 := by omega
      simp only [positive, side, decide_true, decide_false, if_true, total_cons] at ih ⊢
      simp only [Bool.false_eq_true, if_false]
      omega
    · by_cases negative : entry.2 < 0
      · simp only [positive, negative, decide_true, decide_false, if_true, total_cons]
        simp only [Bool.false_eq_true, if_false]
        omega
      · -- An entry with the count zero stands on neither side and counts for nothing.
        have isZero : entry.2 = 0 := by omega
        simp only [isZero, Int.lt_irrefl, decide_false, Bool.false_eq_true, if_false, ite_self]
        omega

end Composite

namespace Expr

open Composite

variable [TransOrd α]

/-! ### The composite of a tree -/

@[simp] theorem composite_noUnit : (noUnit : Expr α).composite = 1 := rfl

@[simp] theorem composite_atom (a : α) : (atom a).composite = Composite.single a := rfl

@[simp] theorem count_composite_frac (num den : Expr α) (a : α) :
    (frac num den).composite.count a = num.composite.count a - den.composite.count a :=
  count_div num.composite den.composite a

@[simp] theorem count_composite_mul_nil (a : α) : (mul [] : Expr α).composite.count a = 0 := rfl

@[simp] theorem count_composite_mul_cons (term : Expr α) (terms : List (Expr α)) (a : α) :
    (mul (term :: terms)).composite.count a
      = term.composite.count a + (mul terms).composite.count a :=
  count_mul term.composite (mul terms).composite a

theorem count_composite_mul_atoms (as : List α) (a : α) :
    (mul (as.map atom)).composite.count a = mentions a as := by
  induction as with
  | nil => rfl
  | cons b rest ih =>
    simp only [List.map_cons, count_composite_mul_cons, composite_atom, count_single, ih,
      mentions, List.countP_cons, Int.natCast_add]
    by_cases same : compare b a = .eq
    · simp [same, Int.add_comm]
    · simp [same]

theorem count_composite_ofAtoms (as : List α) (a : α) :
    (ofAtoms as).composite.count a = mentions a as := by
  match as with
  | [] => rfl
  | [b] =>
    simp only [ofAtoms, composite_atom, count_single, mentions, List.countP_cons, List.countP_nil]
    split <;> simp_all
  | b :: c :: rest => exact count_composite_mul_atoms (b :: c :: rest) a

/-- A composite spelled out is read as the same composite. -/
@[simp] theorem composite_ofComposite [LawfulEqOrd α] (c : Composite α) :
    (ofComposite c).composite = c := by
  -- Both sides count what stands above the bar less what stands below it.
  refine ext_count fun a => ?_
  have top := mentions_numerator c a
  have bottom := mentions_denominator c a
  have whole := total_above_add_total_below c a
  rw [count_eq_total c]
  unfold ofComposite
  split
  next noDenominator =>
    rw [noDenominator] at bottom
    rw [count_composite_ofAtoms]
    simp only [mentions, List.countP_nil, Int.natCast_zero] at bottom ⊢
    simp only [mentions] at top
    omega
  · rw [count_composite_frac, count_composite_ofAtoms, count_composite_ofAtoms]
    omega

theorem ofComposite_injective [LawfulEqOrd α] {c d : Composite α}
    (same : ofComposite c = ofComposite d) : c = d := by
  rw [← composite_ofComposite c, same, composite_ofComposite]

/-! ### Canonical forms -/

@[simp] theorem composite_reduce [LawfulEqOrd α] (e : Expr α) :
    e.reduce.composite = e.composite := composite_ofComposite e.composite

/-- Trees have the same canonical form exactly when every atom counts the same in both. -/
theorem reduce_eq_iff [LawfulEqOrd α] {x y : Expr α} :
    x.reduce = y.reduce ↔ x.composite = y.composite :=
  ⟨ofComposite_injective, congrArg ofComposite⟩

theorem reduce_reduce [LawfulEqOrd α] (e : Expr α) : e.reduce.reduce = e.reduce :=
  reduce_eq_iff.mpr (composite_reduce e)

theorem isCanonical_ofComposite [LawfulEqOrd α] [DecidableEq α] (c : Composite α) :
    (ofComposite c).isCanonical = true := by
  simp [isCanonical, reduce]

end Expr

end Metrology
