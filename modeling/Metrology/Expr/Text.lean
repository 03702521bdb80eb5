import Metrology.Expr.Basic

/-!
# Expressions as text

Unlike the text of a composite, the text of an expression keeps the shape of the tree: repeated
atoms are repeated, and parentheses stand exactly where reading from left to right would
otherwise regroup the tree.
-/
namespace Metrology.Expr

universe u

variable {α : Type u}

def isFrac : Expr α → Bool
  | .frac _ _ => true
  | _ => false

/-- Products and fractions, which need parentheses below the bar. -/
def isCompound : Expr α → Bool
  | .mul _ | .frac _ _ => true
  | _ => false

def enclose (needed : Bool) (text : String) : String :=
  if needed then "(" ++ text ++ ")" else text

mutual

def text (name : α → String) : Expr α → String
  | .noUnit => "1"
  | .atom a => name a
  | .mul [] => "1"
  | .mul (term :: terms) => enclose term.isFrac (term.text name) ++ textOfTerms name terms
  | .frac num den =>
    enclose num.isFrac (num.text name) ++ "/" ++ enclose den.isCompound (den.text name)

/-- The terms of a product after the first, each with the dot before it. -/
def textOfTerms (name : α → String) : List (Expr α) → String
  | [] => ""
  | term :: terms => "·" ++ enclose term.isFrac (term.text name) ++ textOfTerms name terms

end

instance : ToString (Expr String) := ⟨text id⟩

end Metrology.Expr
