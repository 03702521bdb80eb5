import Metrology.Composite.Text
import Metrology.Dimension
import Metrology.Parse.Quantity
import Metrology.Quantity
import Metrology.Registry.Basic

/-!
# Units and quantities as text

Texts are read by resolving the symbols of an expression in a registry and expanding what they are
short for; units are written in canonical form with the symbols of a registry.
-/
namespace Metrology.Registry

/-! ### Writing -/

/-- The text of an expression in canonical form, such as `kg·m²/s²` or `1/s`; the empty text for
no unit. -/
def symbol (r : Registry) (e : Expr UnitId) : String := (r.reduce e).composite.text r.unitSymbol

def unitText (r : Registry) (u : Unit) : String := r.symbol u.expr

/-- The text of a dimension, with the symbols of its scales. -/
def dimensionText (r : Registry) (d : Dimension) : String := d.composite.text r.scaleSymbol

/-- The text of a quantity: its value, and its unit if it has one. -/
def quantityText (r : Registry) (q : Quantity) : String :=
  let value := Decimal.Layout.plain.text q.value
  if q.unit.isNone then value else value ++ " " ++ r.unitText q.unit

/-! ### Reading -/

/-- The unit that an expression over symbols denotes. -/
def resolve (r : Registry) (e : Expr String) : Except UnitError Unit := do
  return r.reduce (← e.traverse r.findUnit)

def atom (r : Registry) (symbol : String) : Except UnitError Unit := do
  return r.reduce (.atom (← r.findUnit symbol))

def parseUnit (r : Registry) (text : String) : Except UnitError Unit := do
  r.resolve (← Parse.unit text)

def parseQuantity (r : Registry) (text : String) : Except UnitError Quantity := do
  let (value, e) ← Parse.quantity text
  return ⟨value, ← r.resolve e⟩

end Metrology.Registry
