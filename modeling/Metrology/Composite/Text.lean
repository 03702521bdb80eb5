import Metrology.Composite.Basic
import Metrology.Text.Superscript

/-!
# Composites as text

The numerator comes first, each atom with its exponent in raised digits, the atoms joined by
middle dots: `kg·m²/s²`. Parentheses enclose a denominator of several atoms, an empty numerator
is written `1` before the bar, and the composite without atoms is the empty text.
-/
namespace Metrology.Composite

universe u

variable {α : Type u} [Ord α]

/-- Each atom with its exponent; the sign is shown by the side of the bar. -/
def factorTexts (name : α → String) (entries : List (α × Int)) : List String :=
  entries.map fun entry => name entry.1 ++ Superscript.ofNat entry.2.natAbs

def joinFactors (factors : List String) : String := "·".intercalate factors

def text (name : α → String) (c : Composite α) : String :=
  let num := factorTexts name c.above
  let top := if num.isEmpty then "1" else joinFactors num
  match factorTexts name c.below with
  | [] => joinFactors num
  | [den] => top ++ "/" ++ den
  | den => top ++ "/(" ++ joinFactors den ++ ")"

end Metrology.Composite
