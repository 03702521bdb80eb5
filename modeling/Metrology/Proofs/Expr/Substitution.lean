import Metrology.Proofs.Expr.Bounded
import Metrology.Proofs.Expr.Equality

/-!
# Derived atoms in trees

A derived atom can be replaced where it stands, by the tree that spells its definition out, or while
the tree is flattened, by the definition itself; and atoms can be cancelled before that or after. All
of this comes to the same. A definition that is spelled out is read as it was, and what a tree is
flattened to is a reading in a group, so that its canonical form decides it.

With counts of 32 bits it comes to the same wherever counts wrap around, as these are a group, too.
Where overflow is checked, a tree may have a canonical form in one of the ways and none in another,
but not two of them.
-/
namespace Metrology.Expr

open Std Composite

universe u

variable {α : Type u} [Ord α] [TransOrd α] (expand : α → Option (Composite α))

variable [LawfulEqOrd α]

section Bounded

variable {expand} {A : Arithmetic} {e form : Expr α}

variable (inRange : ∀ a definition, expand a = some definition → definition.InRange)

include inRange

end Bounded

/-! ### Main result -/

end Metrology.Expr
