import Metrology.Registry.Convert

/-!
# Arithmetic of quantities

Sums, differences and comparisons are made in the unit of the left operand, to which the right one
is converted first. Products and quotients are defined for any two units of the registry.
-/
namespace Metrology.Registry

def convertQuantity (r : Registry) (q : Quantity) (target : Unit) :
    Except UnitError Quantity := do
  return ⟨← r.convert q.value q.unit target, target⟩

def multiply (r : Registry) (a b : Quantity) : Except UnitError Quantity := do
  r.check a.unit
  r.check b.unit
  return ⟨a.value * b.value, a.unit * b.unit⟩

def divide (r : Registry) (a b : Quantity) : Except UnitError Quantity := do
  r.check a.unit
  r.check b.unit
  return ⟨a.value / b.value, a.unit / b.unit⟩

def sum (r : Registry) (a b : Quantity) : Except UnitError Quantity := do
  return ⟨a.value + (← r.convert b.value b.unit a.unit), a.unit⟩

def difference (r : Registry) (a b : Quantity) : Except UnitError Quantity := do
  return ⟨a.value - (← r.convert b.value b.unit a.unit), a.unit⟩

/-- The order of two numbers; there is none if one of them is not a number. -/
def orderOf (x y : Float) : Option Ordering :=
  if x < y then some .lt else if x == y then some .eq else if y < x then some .gt else none

def compareQuantities (r : Registry) (a b : Quantity) : Except UnitError (Option Ordering) := do
  return orderOf a.value (← r.convert b.value b.unit a.unit)

/-! ### Relations -/

/-- Whether the order of two quantities passes a test. -/
def relates (test : Option Ordering → Bool) (r : Registry) (a b : Quantity) :
    Except UnitError Bool := do
  return test (← r.compareQuantities a b)

def less : Registry → Quantity → Quantity → Except UnitError Bool :=
  relates fun order => order = some .lt

def atMost : Registry → Quantity → Quantity → Except UnitError Bool :=
  relates fun order => order = some .lt || order = some .eq

def greater : Registry → Quantity → Quantity → Except UnitError Bool :=
  relates fun order => order = some .gt

def atLeast : Registry → Quantity → Quantity → Except UnitError Bool :=
  relates fun order => order = some .gt || order = some .eq

/-- Equality after the right quantity has been converted to the unit of the left one. -/
def equalConverted : Registry → Quantity → Quantity → Except UnitError Bool :=
  relates fun order => order = some .eq

def unequalConverted (r : Registry) (a b : Quantity) : Except UnitError Bool := do
  return !(← r.equalConverted a b)

/-! ### Normal form -/

/-- Express a quantity in the coherent unit of its dimension. -/
def normalize (r : Registry) (q : Quantity) : Except UnitError Quantity := do
  r.convertQuantity q (← r.baseUnit (← r.dimension q.unit))

end Metrology.Registry
