import Metrology.Error
import Metrology.Json.Basic

/-!
# Errors as data

An error is an object whose only field is named for the kind of error and holds what the error
mentions: one value by itself, two in an array. The error that mentions nothing is a plain string.
-/
namespace Metrology.UnitError

def toJson (error : UnitError) : Json :=
  let one (value : Json) : Json := .obj [(error.kind, value)]
  let two (first second : Json) : Json := one (.arr [first, second])
  match error with
  | incompatible source target | noScaleConversion source target
  | duplicateConversion source target | invalidConversion source target =>
    two (.str source) (.str target)
  | unknownUnit name | unknownScale name | duplicateUnit name | duplicateScale name
  | sameScale name | inverseScale name | trivialScale name | factorOverflow name
  | foreignUnit name | noBaseUnit name | malformed name | json name => one (.str name)
  | invalidFactor num den => two (.int num.toNat) (.int den.toNat)
  | powerOverflow power => one (.int power)
  | alreadyInstalled => .str error.kind

/-- The kinds of errors, in the order in which refusals list them. -/
def kinds : List String :=
  ["Conversion", "NoScaleConversion", "UnknownUnit", "UnknownScale", "DuplicateUnit",
    "DuplicateScale", "DuplicateConversion", "SameScale", "InvalidFactor", "InverseScale",
    "TrivialScale", "FactorOverflow", "PowerOverflow", "ForeignUnit", "InvalidConversion",
    "NoBaseUnit", "AlreadyInstalled", "ParseError", "Json"]

/-! ### Reading what an error mentions -/

def stringOfJson : Json → Json.Decoded String
  | .str s => .ok s
  | value => value.mismatch "a string"

def wholeOfJson (low high : Int) (expected : String) : Json → Json.Decoded Int
  | .int n =>
    if low ≤ n ∧ n ≤ high then .ok n
    else .error s!"invalid value: integer `{n}`, expected {expected}"
  | value => value.mismatch expected

def wordOfJson (value : Json) : Json.Decoded UInt64 := do
  return UInt64.ofNat (← wholeOfJson 0 18446744073709551615 "u64" value).toNat

def ofOne {β : Type} (decode : Json → Json.Decoded β) (error : β → UnitError) :
    Option Json → Json.Decoded UnitError
  | some value => (decode value).map error
  | none => .error "invalid type: unit variant, expected newtype variant"

/-- An error that mentions two things of one kind. An empty array stands for nothing at all. -/
def ofTwo {β : Type} (kind : String) (decode : Json → Json.Decoded β)
    (error : β → β → UnitError) : Option Json → Json.Decoded UnitError
  | some (.arr []) => Json.null.mismatch s!"tuple variant UnitError::{kind}"
  | some (.arr items) => do
    let parts ← (items.take 2).mapM decode
    match parts with
    | [first, second] =>
      if items.length = 2 then return error first second
      else throw s!"invalid length {items.length}, expected fewer elements in array"
    | _ =>
      let expected := s!"tuple variant UnitError::{kind} with 2 elements"
      throw s!"invalid length {items.length}, expected {expected}"
  | some value => value.mismatch "tuple variant"
  | none => .error "invalid type: unit variant, expected tuple variant"

/-- The error of a kind that mentions what a value holds. -/
def ofParts (kind : String) (value : Option Json) : Json.Decoded UnitError :=
  match kind with
  | "Conversion" => ofTwo kind stringOfJson incompatible value
  | "NoScaleConversion" => ofTwo kind stringOfJson noScaleConversion value
  | "UnknownUnit" => ofOne stringOfJson unknownUnit value
  | "UnknownScale" => ofOne stringOfJson unknownScale value
  | "DuplicateUnit" => ofOne stringOfJson duplicateUnit value
  | "DuplicateScale" => ofOne stringOfJson duplicateScale value
  | "DuplicateConversion" => ofTwo kind stringOfJson duplicateConversion value
  | "SameScale" => ofOne stringOfJson sameScale value
  | "InvalidFactor" => ofTwo kind wordOfJson invalidFactor value
  | "InverseScale" => ofOne stringOfJson inverseScale value
  | "TrivialScale" => ofOne stringOfJson trivialScale value
  | "FactorOverflow" => ofOne stringOfJson factorOverflow value
  | "PowerOverflow" =>
    ofOne (wholeOfJson (-2147483648) 2147483647 "i32") powerOverflow value
  | "ForeignUnit" => ofOne stringOfJson foreignUnit value
  | "InvalidConversion" => ofTwo kind stringOfJson invalidConversion value
  | "NoBaseUnit" => ofOne stringOfJson noBaseUnit value
  | "AlreadyInstalled" =>
    match value with
    | none | some .null => .ok alreadyInstalled
    | some value => value.mismatch "unit"
  | "ParseError" => ofOne stringOfJson malformed value
  | "Json" => ofOne stringOfJson json value
  | _ =>
    let known := ", ".intercalate (kinds.map fun kind => "`" ++ kind ++ "`")
    .error s!"unknown variant `{kind}`, expected one of {known}"

def ofJson : Json → Json.Decoded UnitError
  | .str kind => ofParts kind none
  | .obj [(kind, value)] => ofParts kind (some value)
  | .obj _ => .error "invalid value: map, expected map with a single key"
  | value => value.mismatch "string or map"

end Metrology.UnitError
