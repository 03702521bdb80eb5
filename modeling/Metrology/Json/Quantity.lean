import Metrology.Json.Basic
import Metrology.Registry.Text

/-!
# Units, quantities and transforms as data

A unit is a string. A quantity is written as an object with its value and its unit, and read from
such an object, from an array of the same two, from a bare number or from a string. The unit may
be left out wherever it is read.
-/
namespace Metrology

namespace Registry

def unitToJson (r : Registry) (u : Unit) : Json := .str (r.unitText u)

def unitOfJson (r : Registry) : Json → Json.Decoded Unit
  | .str text => (r.parseUnit text).mapError UnitError.message
  | value => value.mismatch "a string"

def quantityToJson (r : Registry) (q : Quantity) : Json :=
  .obj [("value", .float q.value), ("unit", r.unitToJson q.unit)]

/-- The unit in a quantity: there may be none. -/
def optionalUnitOfJson (r : Registry) : Option Json → Json.Decoded Unit
  | none | some .null => .ok .none
  | some value => r.unitOfJson value

/-- The quantity with a value and a unit that are given apart. Whatever is wrong with one of them,
the refusal only says that there is no quantity. -/
def quantityOfParts (r : Registry) (value : Option Json) (unit : Option Json) :
    Json.Decoded Quantity :=
  match value.map Json.toFloat, r.optionalUnitOfJson unit with
  | some (.ok value), .ok unit => .ok ⟨value, unit⟩
  | _, _ => .error "data did not match any variant of untagged enum QuantityRepr"

def quantityOfJson (r : Registry) : Json → Json.Decoded Quantity
  | .int n => .ok (.ofValue (Float.ofInt n))
  | .float x => .ok (.ofValue x)
  | .str text => (r.parseQuantity text).mapError UnitError.message
  | .obj fields => r.quantityOfParts (Json.field? fields "value") (Json.field? fields "unit")
  | .arr [value] => r.quantityOfParts (some value) none
  | .arr [value, unit] => r.quantityOfParts (some value) (some unit)
  | _ => r.quantityOfParts none none

end Registry

namespace Affine

def toJson (t : Affine Float) : Json := .obj [("mul", .float t.slope), ("add", .float t.offset)]

/-- A transform is read from an object or from an array of its two numbers. The fields of an object
are looked at in alphabetical order, before any that is missing is missed. -/
def ofJson : Json → Json.Decoded (Affine Float)
  | .obj fields => do
    let offset ← (Json.field? fields "add").mapM Json.toFloat
    let slope ← (Json.field? fields "mul").mapM Json.toFloat
    match slope, offset with
    | some slope, some offset => return ⟨slope, offset⟩
    | none, _ => throw "missing field `mul`"
    | _, none => throw "missing field `add`"
  | .arr items => do
    let numbers ← (items.take 2).mapM Json.toFloat
    match numbers with
    | [slope, offset] =>
      if items.length = 2 then return ⟨slope, offset⟩
      else throw s!"invalid length {items.length}, expected fewer elements in array"
    | _ => throw s!"invalid length {items.length}, expected struct Affine with 2 elements"
  | value => value.mismatch "struct Affine"

end Affine

end Metrology
