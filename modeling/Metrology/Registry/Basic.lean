import Metrology.Affine
import Metrology.Scale
import Metrology.Unit

/-!
# Registries

A registry lists the scales and units that have been declared and the conversions between scales
that differ by more than a factor. Declarations are only ever added at the end, and a declaration
mentions nothing but earlier ones. Everything is found by its place in the list, or by its name in
a table beside the list; a registry knows nothing about the identifiers of another one.
-/
namespace Metrology

structure ScaleConversion where
  source : ScaleId
  target : ScaleId
  forward : Affine Float
  backward : Option (Affine Float)

/-- The transform for an ordered pair of scales, if this conversion has one. -/
def ScaleConversion.transform? (c : ScaleConversion) (source target : ScaleId) :
    Option (Affine Float) :=
  if source = c.source ∧ target = c.target then some c.forward
  else if source = c.target ∧ target = c.source then c.backward
  else none

structure Registry where
  tag : Nat
  scales : List Scale
  units : List NamedUnit
  scaleNames : List (String × ScaleId)
  unitSymbols : List (String × UnitId)
  conversions : List ScaleConversion

namespace Registry

def empty (tag : Nat) : Registry := ⟨tag, [], [], [], [], []⟩

/-! ### Lookup by identifier -/

def scale? (r : Registry) (id : ScaleId) : Option Scale :=
  if id.registry = r.tag then r.scales[id.index]? else none

def unit? (r : Registry) (id : UnitId) : Option NamedUnit :=
  if id.registry = r.tag then r.units[id.index]? else none

/-- The name of a scale; a scale of another registry has none here. -/
def scaleName (r : Registry) (id : ScaleId) : Except UnitError String :=
  match r.scale? id with
  | some scale => .ok scale.name
  | none => .error (.unknownScale id.text)

/-- The symbol of a scale, or its number if it belongs to another registry. -/
def scaleSymbol (r : Registry) (id : ScaleId) : String :=
  match r.scale? id with
  | some scale => scale.symbol
  | none => id.text

/-- The symbol of a named unit, or its number if it belongs to another registry. -/
def unitSymbol (r : Registry) (id : UnitId) : String :=
  match r.unit? id with
  | some unit => unit.symbol
  | none => id.text

/-! ### Lookup by name -/

def findScale (r : Registry) (name : String) : Except UnitError ScaleId :=
  match r.scaleNames.lookup name with
  | some id => .ok id
  | none => .error (.unknownScale name)

def findUnit (r : Registry) (symbol : String) : Except UnitError UnitId :=
  match r.unitSymbols.lookup symbol with
  | some id => .ok id
  | none => .error (.unknownUnit symbol)

/-- All named units with their identifiers, in the order of their declarations. -/
def namedUnits (r : Registry) : List (UnitId × NamedUnit) :=
  r.units.mapIdx fun index unit => (⟨r.tag, index⟩, unit)

/-! ### Definitions expanded -/

def expansion? (r : Registry) (id : UnitId) : Option (Composite UnitId) :=
  match r.unit? id with
  | some ⟨_, .alternative expansion⟩ => some expansion
  | _ => none

def derivation? (r : Registry) (id : ScaleId) : Option (Composite ScaleId) :=
  (r.scale? id).bind (·.derivation)

/-- The unit that an expression denotes, alternative names expanded. -/
def reduce (r : Registry) (e : Expr UnitId) : Unit := ⟨e.compositeWith r.expansion?⟩

/-- Derived scales replaced by the base scales they are made of. -/
def expandScales (r : Registry) (c : Composite ScaleId) : Composite ScaleId :=
  c.substitute fun id => (r.derivation? id).getD (.single id)

end Registry

end Metrology
