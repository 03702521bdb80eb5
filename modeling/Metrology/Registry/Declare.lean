import Metrology.MetricPrefix
import Metrology.Registry.Text

/-!
# Declarations

Each function `add…` checks one declaration and, if it is acceptable, returns the identifier
together with the registry that has it at its end. Expressions are expanded before they are stored,
so that definitions never have to be expanded more than once.

`Declaring` strings declarations together. It stops at the first error, and what was declared
before the error stays declared.
-/
namespace Metrology

namespace Registry

/-! ### Scales -/

def withScale (r : Registry) (scale : Scale) : Registry :=
  { r with
    scales := r.scales ++ [scale]
    scaleNames := (scale.name, ⟨r.tag, r.scales.length⟩) :: r.scaleNames }

/-- Append a scale under a name that is not taken. -/
def appendScale (r : Registry) (scale : Scale) : Except UnitError (ScaleId × Registry) :=
  if (r.scaleNames.lookup scale.name).isSome then .error (.duplicateScale scale.name)
  else .ok (⟨r.tag, r.scales.length⟩, r.withScale scale)

def addScale (r : Registry) (name symbol : String) : Except UnitError (ScaleId × Registry) :=
  r.appendScale ⟨name, symbol, none⟩

/-- Declare a scale that is a combination of other scales, as speed is distance over time. A scale
that is the reciprocal of one scale, as written or expanded, is refused, and so is one that is
written as a single scale or none. -/
def addDerivedScale (r : Registry) (name symbol : String) (derivation : Expr ScaleId) :
    Except UnitError (ScaleId × Registry) :=
  match derivation.atoms.find? fun id => (r.scale? id).isNone with
  | some id => .error (.unknownScale id.text)
  | none =>
    let direct := derivation.composite
    let expanded := derivation.compositeWith r.derivation?
    if direct.reciprocal?.isSome || expanded.reciprocal?.isSome then .error (.inverseScale name)
    else if direct.isEmpty || direct.single?.isSome then .error (.trivialScale name)
    else r.appendScale ⟨name, symbol, some expanded⟩

/-! ### Units -/

def withUnit (r : Registry) (unit : NamedUnit) : Registry :=
  { r with
    units := r.units ++ [unit]
    unitSymbols := (unit.symbol, ⟨r.tag, r.units.length⟩) :: r.unitSymbols }

/-- Append a named unit under a symbol that is not taken. -/
def appendUnit (r : Registry) (unit : NamedUnit) : Except UnitError (UnitId × Registry) :=
  if (r.unitSymbols.lookup unit.symbol).isSome then .error (.duplicateUnit unit.symbol)
  else .ok (⟨r.tag, r.units.length⟩, r.withUnit unit)

/-- Declare a unit that is worth a factor times the base unit of a scale. -/
def addScaledUnit (r : Registry) (symbol : String) (scale : ScaleId) (factor : Factor) :
    Except UnitError (UnitId × Registry) := do
  let _ ← r.scaleName scale
  r.appendUnit ⟨symbol, .scaled scale factor⟩

/-- Declare a unit worth `num / den` base units of a scale. -/
def addUnit (r : Registry) (symbol : String) (scale : ScaleId) (num den : UInt64) :
    Except UnitError (UnitId × Registry) :=
  match Factor.ofWords? num den with
  | some factor => r.addScaledUnit symbol scale factor
  | none => .error (.invalidFactor num den)

/-- Declare the variant of a unit with a metric prefix. -/
def addPrefixedUnit (r : Registry) (symbol : String) (scale : ScaleId) (base : Factor)
    (metric : MetricPrefix) : Except UnitError (UnitId × Registry) :=
  let symbol := metric.symbol ++ symbol
  match metric.factor.bind (Factor.mul? · base) with
  | some factor => r.addScaledUnit symbol scale factor
  | none => .error (.factorOverflow symbol)

/-- Declare another name for a unit expression, as a newton is `kg·m/s²`. -/
def addAlternative (r : Registry) (symbol : String) (e : Expr UnitId) :
    Except UnitError (UnitId × Registry) :=
  match e.atoms.find? fun id => (r.unit? id).isNone with
  | some id => .error (.unknownUnit id.text)
  | none => r.appendUnit ⟨symbol, .alternative (r.reduce e).composite⟩

/-! ### Conversions between scales -/

/-- Some conversion has a transform for the ordered pair of scales. -/
def hasTransform (r : Registry) (source target : ScaleId) : Bool :=
  r.conversions.any fun c => (c.transform? source target).isSome

def withConversion (r : Registry) (conversion : ScaleConversion) : Registry :=
  { r with conversions := r.conversions ++ [conversion] }

/-- Declare a conversion between two distinct scales. Without a backward transform only the way
from source to target is open. Transforms have to be invertible, and no ordered pair of scales may
have two of them. -/
def addConversion (r : Registry) (source target : ScaleId) (forward : Affine Float)
    (backward : Option (Affine Float)) : Except UnitError Registry := do
  let sourceName ← r.scaleName source
  let targetName ← r.scaleName target
  if source = target then throw (.sameScale sourceName)
  if !forward.isInvertible || backward.any (!·.isInvertible) then
    throw (.invalidConversion sourceName targetName)
  if r.hasTransform source target || (backward.isSome && r.hasTransform target source) then
    throw (.duplicateConversion sourceName targetName)
  return r.withConversion ⟨source, target, forward, backward⟩

end Registry

/-! ### Series of declarations -/

/-- A series of declarations in a registry, stopped by the first error. -/
abbrev Declaring (β : Type) := ExceptT UnitError (StateM Registry) β

namespace Declaring

/-- One declaration. If it fails, the registry is as before. -/
def step {β : Type} (declare : Registry → Except UnitError (β × Registry)) : Declaring β :=
  fun r =>
    match declare r with
    | .ok (result, declared) => (.ok result, declared)
    | .error error => (.error error, r)

def scale (name symbol : String) : Declaring ScaleId :=
  step (Registry.addScale · name symbol)

def derivedScale (name symbol : String) (derivation : Expr ScaleId) : Declaring ScaleId :=
  step (Registry.addDerivedScale · name symbol derivation)

def unit (symbol : String) (scale : ScaleId) (num den : UInt64) : Declaring UnitId :=
  step (Registry.addUnit · symbol scale num den)

def alternative (symbol : String) (e : Expr UnitId) : Declaring UnitId :=
  step (Registry.addAlternative · symbol e)

def conversion (source target : ScaleId) (forward : Affine Float)
    (backward : Option (Affine Float)) : Declaring PUnit :=
  step fun r => (r.addConversion source target forward backward).map (PUnit.unit, ·)

/-- A unit with one variant for each of the given prefixes, in their order. -/
def prefixedUnits (symbol : String) (scale : ScaleId) (num den : UInt64)
    (prefixes : List MetricPrefix) : Declaring (List UnitId) :=
  match Factor.ofWords? num den with
  | some base =>
    prefixes.mapM fun metric => step (Registry.addPrefixedUnit · symbol scale base metric)
  | none => throw (.invalidFactor num den)

/-- A unit with its metric variants, nano through mega. -/
def metricUnits (symbol : String) (scale : ScaleId) (num den : UInt64) : Declaring (List UnitId) :=
  prefixedUnits symbol scale num den MetricPrefix.all

end Declaring

end Metrology
