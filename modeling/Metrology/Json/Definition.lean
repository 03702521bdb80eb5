import Metrology.Dimension
import Metrology.Json.Expr
import Metrology.Scale
import Metrology.Unit

/-!
# Declarations as data

Scales, named units and dimensions are written with identifiers in place of names. Whatever is
kept as a composite is written as its canonical tree and read back from any tree.
-/
namespace Metrology

namespace Composite

variable {kind : IdentKind}

def toJson (c : Composite (Ident kind)) : Json := (Expr.ofComposite c).toJson Ident.toJson

def ofJson? (value : Json) : Option (Composite (Ident kind)) :=
  (Expr.ofJson? Ident.ofJson? value).map Expr.composite

end Composite

namespace Dimension

def toJson (d : Dimension) : Json := d.composite.toJson

def ofJson? (value : Json) : Option Dimension := (Composite.ofJson? value).map .mk

end Dimension

namespace Scale

def toJson (scale : Scale) : Json :=
  .obj [("name", .str scale.name), ("symbol", .str scale.symbol),
    ("derivation", (scale.derivation.map Composite.toJson).getD .null)]

def ofJson? : Json → Option Scale
  | .obj fields =>
    match Json.field? fields "name", Json.field? fields "symbol",
      Json.field? fields "derivation" with
    | some (.str name), some (.str symbol), some .null => some ⟨name, symbol, none⟩
    | some (.str name), some (.str symbol), some derivation =>
      (Composite.ofJson? derivation).map fun composite => ⟨name, symbol, some composite⟩
    | _, _, _ => none
  | _ => none

end Scale

namespace Factor

def toJson (f : Factor) : Json := .arr [.int f.num, .int f.den]

def ofJson? : Json → Option Factor
  | .arr [.int num, .int den] => if 0 < den then some (mkRat num den.toNat) else none
  | _ => none

end Factor

namespace UnitMeaning

def toJson : UnitMeaning → Json
  | scaled scale factor =>
    .obj [("Scaled", .obj [("scale", scale.toJson), ("factor", Factor.toJson factor)])]
  | alternative expansion => .obj [("Alias", expansion.toJson)]

def ofJson? : Json → Option UnitMeaning
  | .obj [("Scaled", .obj fields)] => do
    let scale ← Ident.ofJson? (← Json.field? fields "scale")
    let factor ← Factor.ofJson? (← Json.field? fields "factor")
    return .scaled scale factor
  | .obj [("Alias", expansion)] => (Composite.ofJson? expansion).map .alternative
  | _ => none

end UnitMeaning

namespace NamedUnit

def toJson (unit : NamedUnit) : Json :=
  .obj [("symbol", .str unit.symbol), ("kind", unit.meaning.toJson)]

def ofJson? : Json → Option NamedUnit
  | .obj fields =>
    match Json.field? fields "symbol", Json.field? fields "kind" with
    | some (.str symbol), some kind => (UnitMeaning.ofJson? kind).map (⟨symbol, ·⟩)
    | _, _ => none
  | _ => none

end NamedUnit

end Metrology
