import Metrology.Decimal.Layout
import Metrology.Unit

/-!
# Quantities

A value with a unit. Products, powers and multiples need nothing but the two; whatever compares
units needs a registry.
-/
namespace Metrology

structure Quantity where
  value : Float
  unit : Unit
  deriving Inhabited

namespace Quantity

/-- One of a unit. -/
def ofUnit (unit : Unit) : Quantity := ⟨1, unit⟩

/-- A plain number. -/
def ofValue (value : Float) : Quantity := ⟨value, .none⟩

/-- Integer power. -/
def powi (q : Quantity) (n : Int) : Except UnitError Quantity := do
  return ⟨Scalar.powi q.value n, ← q.unit.powi n⟩

/-- A multiple of a quantity. -/
def times (q : Quantity) (number : Float) : Quantity := ⟨q.value * number, q.unit⟩

/-- A fraction of a quantity. -/
def dividedBy (q : Quantity) (number : Float) : Quantity := ⟨q.value / number, q.unit⟩

end Quantity

end Metrology
