import Metrology.Registry.Text

/-!
# What a unit measures and what it is worth

The scales of a unit are those of its named units, as they are; its dimension has derived scales
replaced by base scales. Its factor is what the unit is worth in base units of its scales.
-/
namespace Metrology.Registry

/-- Refuse a unit in which an identifier of another registry occurs. -/
def check (r : Registry) (u : Unit) : Except UnitError PUnit.{1} :=
  if u.composite.entries.any fun entry => entry.1.registry != r.tag then
    .error (.foreignUnit (r.unitText u))
  else .ok ⟨⟩

def scaleOf (r : Registry) (id : UnitId) : Except UnitError ScaleId :=
  match r.unit? id with
  | some ⟨_, .scaled scale _⟩ => .ok scale
  | _ => .error (.unknownUnit (r.unitSymbol id))

def factorOf (r : Registry) (id : UnitId) : Except UnitError Factor :=
  match r.unit? id with
  | some ⟨_, .scaled _ factor⟩ => .ok factor
  | _ => .error (.unknownUnit (r.unitSymbol id))

/-- The scales that a unit is written in, derived ones not expanded: `power/time` for `W/s`. -/
def scalesOf (r : Registry) (u : Unit) : Except UnitError (Composite ScaleId) := do
  r.check u
  let scales ← u.composite.written.mapM fun entry => do return (← r.scaleOf entry.1, entry.2)
  return .ofList scales

def dimension (r : Registry) (u : Unit) : Except UnitError Dimension := do
  return ⟨r.expandScales (← r.scalesOf u)⟩

/-- Take the power of one part of a unit into a product. -/
def timesPart (r : Registry) (u : Unit) (product : Factor) (part : UnitId × Int) :
    Except UnitError Factor := do
  match (Factor.powi? (← r.factorOf part.1) part.2).bind (Factor.mul? product) with
  | some product => return product
  | none => throw (.factorOverflow (r.unitText u))

/-- The exact factor of a unit. It is missing when the product of some of its parts, taken in
order, does not fit. -/
def factor (r : Registry) (u : Unit) : Except UnitError Factor := do
  r.check u
  u.composite.entries.foldlM (r.timesPart u) 1

/-- The factors of the parts of a unit, each with its power. -/
def factors (r : Registry) (u : Unit) : Except UnitError (List (Factor × Int)) :=
  u.composite.entries.mapM fun entry => do return (← r.factorOf entry.1, entry.2)

/-- The first unit declared in a scale with the factor one. -/
def baseUnitOf? (r : Registry) (scale : ScaleId) : Option UnitId :=
  (r.units.findIdx? fun unit => unit.meaning = .scaled scale 1).map (⟨r.tag, ·⟩)

/-- The coherent unit of a dimension: the product of the base units of its scales. -/
def baseUnit (r : Registry) (d : Dimension) : Except UnitError Unit := do
  let units ← d.composite.entries.mapM fun entry => do
    let name ← r.scaleName entry.1
    match r.baseUnitOf? entry.1 with
    | some unit => return (unit, entry.2)
    | none => throw (.noBaseUnit name)
  return r.reduce (.ofComposite (.ofList units))

end Metrology.Registry
