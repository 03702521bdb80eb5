import Metrology.Registry.Declare
import Metrology.Registry.Measure

/-!
# Conversion

Converting a value takes two steps. `route` looks at the two units alone and decides whether and
how values can be converted; `Route.run` carries a value along the route. A route is found if the
units are equal, if their dimensions are, or if each is written in a single scale and a conversion
is declared for just this pair of scales. Conversions are never chained.

Routes can be run on any scalars, so that what the arithmetic of floating-point numbers only
approximates can be stated exactly of rationals.
-/
namespace Metrology

/-- How values in a unit are brought to the base units of its scales. -/
inductive Scaling where
  /-- By the exact factor. -/
  | exact (factor : Factor)
  /-- By the product of the powers of the factors of its parts, when the exact one is too large. -/
  | approximate (factors : List (Factor × Int))
  deriving DecidableEq

namespace Scaling

variable {V : Type} [Scalar V]

def product (factors : List (Factor × Int)) : V :=
  factors.foldl (fun product part => product * Scalar.powi (Factor.toScalar part.1) part.2)
    (Scalar.ofInt 1)

def toBase (s : Scaling) (value : V) : V :=
  match s with
  | exact factor => factor.apply value
  | approximate factors => value * product factors

def fromBase (s : Scaling) (value : V) : V :=
  match s with
  | exact factor => factor.unapply value
  | approximate factors => value / product factors

end Scaling

/-- How values are converted from one unit to another. -/
inductive Route (V : Type) where
  | same
  /-- By the exact ratio of the factors. -/
  | ratio (ratio : Factor)
  /-- Through base units, when the ratio is too large. -/
  | rescale (source target : Scaling)
  /-- Through base units and a transform between two scales. -/
  | transform (source : Scaling) (affine : Affine V) (target : Scaling)

namespace Route

variable {V W : Type}

def map (read : V → W) : Route V → Route W
  | same => same
  | ratio f => ratio f
  | rescale source target => rescale source target
  | transform source affine target => transform source (affine.map read) target

def run [Scalar V] (route : Route V) (value : V) : V :=
  match route with
  | same => value
  | ratio f => f.apply value
  | rescale source target => target.fromBase (source.toBase value)
  | transform source affine target => target.fromBase (affine.apply (source.toBase value))

end Route

namespace Registry

/-- The scaling of a unit: exact if its factor fits. -/
def scaling (r : Registry) (u : Unit) : Except UnitError Scaling :=
  match r.factor u with
  | .ok factor => .ok (.exact factor)
  | .error (.factorOverflow _) => do return .approximate (← r.factors u)
  | .error error => .error error

/-- The exact ratio of the factors of two units. -/
def ratio (r : Registry) (source target : Unit) : Except UnitError Factor := do
  let sourceFactor ← r.factor source
  let targetFactor ← r.factor target
  match Factor.div? sourceFactor targetFactor with
  | some ratio => return ratio
  | none => throw (.factorOverflow (r.unitText source))

/-- The way between two units of one dimension. -/
def rescaling (r : Registry) (source target : Unit) : Except UnitError (Route Float) :=
  match r.ratio source target with
  | .ok ratio => .ok (.ratio ratio)
  | .error (.factorOverflow _) => do return .rescale (← r.scaling source) (← r.scaling target)
  | .error error => .error error

def transform? (r : Registry) (source target : ScaleId) : Option (Affine Float) :=
  r.conversions.findSome? (·.transform? source target)

def incompatible (r : Registry) (source target : Unit) : UnitError :=
  .incompatible (r.unitText source) (r.unitText target)

/-- The way between two units that are each written in a single scale. -/
def transforming (r : Registry) (source target : Unit) (sourceScale targetScale : ScaleId) :
    Except UnitError (Route Float) :=
  match r.transform? sourceScale targetScale with
  | some affine => do return .transform (← r.scaling source) affine (← r.scaling target)
  | none =>
    if r.hasTransform targetScale sourceScale then do
      throw (.noScaleConversion (← r.scaleName sourceScale) (← r.scaleName targetScale))
    else .error (r.incompatible source target)

def route (r : Registry) (source target : Unit) : Except UnitError (Route Float) := do
  r.check source
  r.check target
  if source = target then return .same
  if (← r.dimension source) = (← r.dimension target) then r.rescaling source target
  else
    match (← r.scalesOf source).single?, (← r.scalesOf target).single? with
    | some sourceScale, some targetScale => r.transforming source target sourceScale targetScale
    | _, _ => throw (r.incompatible source target)

def convert (r : Registry) (value : Float) (source target : Unit) : Except UnitError Float := do
  return (← r.route source target).run value

def convertible (r : Registry) (source target : Unit) : Bool :=
  match r.route source target with
  | .ok _ => true
  | .error _ => false

end Registry

end Metrology
