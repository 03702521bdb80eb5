import Mathlib.Algebra.BigOperators.Group.List.Basic
import Mathlib.Algebra.Group.TypeTags.Hom
import Mathlib.Algebra.Ring.Int.Defs
import Metrology.Composite.Lemmas

/-!
# Composites are the free commutative group

Products, quotients and integer powers of composites obey the laws of a commutative group, since
counts do. `eval` extends a reading of the atoms in a commutative group to all composites, and it
is a homomorphism; `counting` is the homomorphism that looks at the count of one atom.
-/
namespace Metrology.Composite

open Std

universe u v w

variable {α : Type u} [Ord α] [TransOrd α] [LawfulEqOrd α]

instance : CommGroup (Composite α) where
  mul_assoc c d e := ext_count fun a => by simp [Int.add_assoc]
  one_mul c := ext_count fun a => by simp
  mul_one c := ext_count fun a => by simp
  mul_comm c d := ext_count fun a => by simp [Int.add_comm]
  inv_mul_cancel c := ext_count fun a => by simp
  div_eq_mul_inv _ _ := rfl
  zpow n c := c.zpow n
  zpow_zero' c := ext_count fun a => by
    change (c.zpow 0).count a = 0
    simp
  zpow_succ' n c := ext_count fun a => by
    change (c.zpow (n + 1)).count a = (c.zpow n * c).count a
    simp [Int.mul_add]
  zpow_neg' n c := ext_count fun a => by
    change (c.zpow (Int.negSucc n)).count a = (c.zpow (n + 1))⁻¹.count a
    rw [count_zpow, count_inv, count_zpow, Int.negSucc_eq, Int.mul_neg]

theorem zpow_eq_pow (c : Composite α) (n : Int) : c.zpow n = c ^ n := rfl

/-- The count of one atom, written multiplicatively. -/
def counting (a : α) : Composite α →* Multiplicative Int where
  toFun c := Multiplicative.ofAdd (c.count a)
  map_one' := by simp
  map_mul' c d := by simp

variable {G : Type v} [CommGroup G]

/-- The product of a list of powers. -/
private def product (f : α → G) (entries : List (α × Int)) : G :=
  (entries.map fun entry => f entry.1 ^ entry.2).prod

omit [TransOrd α] in
private theorem product_addEntry (f : α → G) (a : α) (n : Int) (entries : List (α × Int)) :
    product f (addEntry a n entries) = f a ^ n * product f entries := by
  induction entries with
  | nil => simp only [addEntry]; split <;> simp_all [product]
  | cons head rest ih =>
    obtain ⟨b, m⟩ := head
    simp only [product] at ih
    simp only [addEntry, product]
    split
    · split <;> simp_all
    next same =>
      obtain rfl : a = b := LawfulEqOrd.eq_of_compare same
      split
      next cancelled =>
        -- The entry is gone, and so is its power from the product.
        have undone : f a ^ n * f a ^ m = 1 := by rw [← zpow_add, Int.add_comm, cancelled, zpow_zero]
        rw [List.map_cons, List.prod_cons, ← mul_assoc, undone, one_mul]
      · simp only [List.map_cons, List.prod_cons, ← mul_assoc, ← zpow_add, Int.add_comm]
    · simp only [List.map_cons, List.prod_cons, ih]
      exact mul_left_comm _ _ _

private theorem product_foldl_add (f : α → G) (pairs : List (α × Int)) (c : Composite α) :
    product f (pairs.foldl (fun sum pair => sum.add pair.1 pair.2) c).entries
      = product f c.entries * product f pairs := by
  induction pairs generalizing c with
  | nil => simp [product]
  | cons pair rest ih =>
    have first : product f (c.add pair.1 pair.2).entries = f pair.1 ^ pair.2 * product f c.entries :=
      product_addEntry f pair.1 pair.2 c.entries
    rw [List.foldl_cons, ih, first, mul_comm (f pair.1 ^ pair.2), mul_assoc]
    rfl

/-- The element that a composite denotes once each atom denotes one. -/
def eval (f : α → G) : Composite α →* G where
  toFun c := product f c.entries
  map_one' := by simp [product]
  map_mul' c d := product_foldl_add f d.entries c

theorem eval_eq_prod (f : α → G) (c : Composite α) :
    eval f c = (c.entries.map fun entry => f entry.1 ^ entry.2).prod := rfl

theorem eval_congr {f g : α → G} {c : Composite α}
    (same : ∀ entry ∈ c.entries, f entry.1 = g entry.1) : eval f c = eval g c := by
  rw [eval_eq_prod, eval_eq_prod]
  refine congrArg List.prod (List.map_congr_left fun entry member => ?_)
  rw [same entry member]

@[simp] theorem eval_single (f : α → G) (a : α) : eval f (single a) = f a := by
  simp [eval_eq_prod]

/-- A homomorphism can be applied to what the atoms denote. -/
theorem map_eval {H : Type w} [CommGroup H] (φ : G →* H) (f : α → G) (c : Composite α) :
    φ (eval f c) = eval (fun a => φ (f a)) c := by
  rw [eval_eq_prod, eval_eq_prod, map_list_prod, List.map_map]
  refine congrArg List.prod (List.map_congr_left fun entry _ => ?_)
  exact map_zpow φ (f entry.1) entry.2

theorem eval_ofList (f : α → G) (pairs : List (α × Int)) :
    eval f (ofList pairs) = (pairs.map fun pair => f pair.1 ^ pair.2).prod := by
  have start : product f (1 : Composite α).entries = 1 := map_one (eval f)
  calc eval f (ofList pairs)
      = product f (1 : Composite α).entries * product f pairs := product_foldl_add f pairs 1
    _ = product f pairs := by rw [start, one_mul]

/-! ### Substitution -/

variable {β : Type u} [Ord β] [TransOrd β] [LawfulEqOrd β]

/-- Substitution reads a composite in the composites. -/
theorem substitute_eq_eval (c : Composite β) (f : β → Composite α) : c.substitute f = eval f c := by
  rw [eval_eq_prod, List.prod_eq_foldl, List.foldl_map]
  rfl

theorem count_eval (f : β → Composite α) (c : Composite β) (a : α) :
    (eval f c).count a = (c.entries.map fun entry => entry.2 * (f entry.1).count a).sum := by
  rw [eval_eq_prod]
  induction c.entries with
  | nil => exact count_one a
  | cons entry rest ih =>
    rw [List.map_cons, List.prod_cons, List.map_cons, List.sum_cons, count_mul, ih,
      ← zpow_eq_pow, count_zpow, Int.mul_comm]

/-! ### The order of writing -/

omit [TransOrd α] [LawfulEqOrd α] in
theorem written_perm_entries (c : Composite α) : c.written.Perm c.entries := by
  -- No count is zero, so that what is not above the bar is below it.
  have rest : c.below = c.entries.filter fun entry => !decide (0 < entry.2) := by
    refine List.filter_congr fun entry member => ?_
    have nonzero := c.nonzero entry member
    rw [decide_eq_decide.mpr (by omega : entry.2 < 0 ↔ ¬ 0 < entry.2), decide_not]
  rw [written, rest]
  exact List.filter_append_perm _ c.entries

end Metrology.Composite
