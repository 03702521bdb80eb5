import Metrology.Error
import Metrology.Expr.Basic
import Metrology.Factor
import Metrology.Ident

/-!
# Units

A named unit has a symbol and is either worth a factor times the base unit of a scale or short
for an expression of other units. A unit is any product of powers of named units; it is kept as a
composite, so that two units are the same exactly when they are equal.
-/
namespace Metrology

/-- What the symbol of a named unit stands for. -/
inductive UnitMeaning where
  /-- So many base units of a scale. -/
  | scaled (scale : ScaleId) (factor : Factor)
  /-- Another name for a product of powers of units. -/
  | alternative (expansion : Composite UnitId)
  deriving DecidableEq

structure NamedUnit where
  symbol : String
  meaning : UnitMeaning
  deriving DecidableEq

/-- A product of powers of named units. -/
structure Unit where
  composite : Composite UnitId
  deriving DecidableEq

namespace Unit

def none : Unit := ⟨1⟩

instance : Inhabited Unit := ⟨none⟩

def expr (u : Unit) : Expr UnitId := .ofComposite u.composite

def isNone (u : Unit) : Bool := u.composite.isEmpty

instance : Mul Unit := ⟨fun u w => ⟨u.composite * w.composite⟩⟩

instance : Div Unit := ⟨fun u w => ⟨u.composite / w.composite⟩⟩

/-- Integer power. It fails when an exponent would leave the range that exponents may have. -/
def powi (u : Unit) (n : Int) : Except UnitError Unit :=
  match u.composite.boundedPowi? n with
  | some power => .ok ⟨power⟩
  | .none => .error (.powerOverflow n)

end Unit

end Metrology
