import Metrology.Composite.Bounded
import Metrology.Expr.Basic

/-!
# Expressions with counts of 32 bits

Trees are flattened as in `Expr.value`, with counts in either arithmetic: the terms of a product are
multiplied from left to right, and both sides of a fraction are flattened before the quotient is
taken. There is no canonical form where a count on the way does not fit and overflow is checked.
-/
namespace Metrology.Expr

open Std

universe u v

variable {α : Type u} {β : Type v} [Ord β] [TransOrd β]

mutual

/-- The composite that a tree denotes once each atom denotes one. -/
def value? (A : Arithmetic) (f : α → Composite β) : Expr α → Option (Composite β)
  | .noUnit => some 1
  | .atom a => some (f a)
  | .mul terms => productOfTerms? A f 1 terms
  | .frac num den => do
    let above ← num.value? A f
    let below ← den.value? A f
    above.div? A below

def productOfTerms? (A : Arithmetic) (f : α → Composite β) (product : Composite β) :
    List (Expr α) → Option (Composite β)
  | [] => some product
  | term :: terms => do
    let factor ← term.value? A f
    let product ← product.mul? A factor
    productOfTerms? A f product terms

end

def compositeWith? (A : Arithmetic) (expand : β → Option (Composite β)) (e : Expr β) :
    Option (Composite β) :=
  e.value? A fun a => (expand a).getD (.single a)

def reduceWith? (A : Arithmetic) (expand : β → Option (Composite β)) (e : Expr β) :
    Option (Expr β) :=
  (e.compositeWith? A expand).map ofComposite

end Metrology.Expr
