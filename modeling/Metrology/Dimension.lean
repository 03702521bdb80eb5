import Metrology.Expr.Basic
import Metrology.Ident

/-!
# Dimensions

The dimension of a unit is the product of powers of base scales that it measures. Units can be
rescaled into each other by a factor exactly when their dimensions are equal.
-/
namespace Metrology

structure Dimension where
  composite : Composite ScaleId
  deriving DecidableEq

namespace Dimension

def dimensionless : Dimension := ⟨1⟩

/-- The canonical tree of a dimension. -/
def expr (d : Dimension) : Expr ScaleId := .ofComposite d.composite

def isDimensionless (d : Dimension) : Bool := d.composite.isEmpty

end Dimension

end Metrology
