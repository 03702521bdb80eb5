import Metrology.Composite.Basic
import Metrology.Ident

/-!
# Scales

A scale is a family of units that differ by factors only, such as all units of length. A base
scale stands for itself; a derived scale is a product of powers of base scales.
-/
namespace Metrology

/-- A declared scale. The derivation of a derived scale mentions base scales only. -/
structure Scale where
  name : String
  symbol : String
  derivation : Option (Composite ScaleId)
  deriving DecidableEq

def Scale.isBase (scale : Scale) : Bool := scale.derivation.isNone

end Metrology
