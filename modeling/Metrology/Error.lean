/-!
# Errors

What can go wrong when units are declared, read, combined or converted. Units and scales are
reported by their symbols and names, so that a message can be read without a registry at hand.
-/
namespace Metrology

inductive UnitError where
  | incompatible (source target : String)
  /-- The scales are related, but only in the other direction. -/
  | noScaleConversion (source target : String)
  | unknownUnit (symbol : String)
  | unknownScale (name : String)
  | duplicateUnit (symbol : String)
  | duplicateScale (name : String)
  | duplicateConversion (source target : String)
  | sameScale (name : String)
  | invalidFactor (num den : UInt64)
  /-- A scale may not be the reciprocal of a single scale. -/
  | inverseScale (name : String)
  /-- A derived scale has to differ from all base scales and from no scale at all. -/
  | trivialScale (name : String)
  | factorOverflow (symbol : String)
  | powerOverflow (power : Int)
  /-- An identifier of another registry occurs. -/
  | foreignUnit (symbol : String)
  | invalidConversion (source target : String)
  /-- No unit of the scale has the factor one. -/
  | noBaseUnit (scale : String)
  | alreadyInstalled
  | malformed (reason : String)
  | json (reason : String)
  deriving DecidableEq, Inhabited

namespace UnitError

def message : UnitError → String
  | incompatible source target => s!"Incompatible units: {source} <-> {target}"
  | noScaleConversion source target =>
    s!"No scale conversion registered from {source} to {target}"
  | unknownUnit symbol => s!"Unknown unit: {symbol}"
  | unknownScale name => s!"Unknown scale: {name}"
  | duplicateUnit symbol => s!"Unit already declared: {symbol}"
  | duplicateScale name => s!"Scale already declared: {name}"
  | duplicateConversion source target =>
    s!"Scale conversion already declared: {source} -> {target}"
  | sameScale name => s!"Scale conversion from {name} to itself"
  | invalidFactor num den => s!"Invalid unit factor: {num}/{den}"
  | inverseScale name => s!"Scale {name} is the inverse of a single scale; use 1/unit"
  | trivialScale name => s!"Scale {name} does not derive a new dimension"
  | factorOverflow symbol => s!"Unit factor overflow in {symbol}"
  | powerOverflow power => s!"Unit power out of range: {power}"
  | foreignUnit symbol => s!"Unit {symbol} belongs to another registry"
  | invalidConversion source target => s!"Invalid scale conversion: {source} -> {target}"
  | noBaseUnit scale => s!"No unit with factor 1 in scale {scale}"
  | alreadyInstalled => "A unit registry has already been installed"
  | malformed reason => s!"Unit parse error: {reason}"
  | json reason => s!"JSON error: {reason}"

/-- The name of the kind of error in data. -/
def kind : UnitError → String
  | incompatible _ _ => "Conversion"
  | noScaleConversion _ _ => "NoScaleConversion"
  | unknownUnit _ => "UnknownUnit"
  | unknownScale _ => "UnknownScale"
  | duplicateUnit _ => "DuplicateUnit"
  | duplicateScale _ => "DuplicateScale"
  | duplicateConversion _ _ => "DuplicateConversion"
  | sameScale _ => "SameScale"
  | invalidFactor _ _ => "InvalidFactor"
  | inverseScale _ => "InverseScale"
  | trivialScale _ => "TrivialScale"
  | factorOverflow _ => "FactorOverflow"
  | powerOverflow _ => "PowerOverflow"
  | foreignUnit _ => "ForeignUnit"
  | invalidConversion _ _ => "InvalidConversion"
  | noBaseUnit _ => "NoBaseUnit"
  | alreadyInstalled => "AlreadyInstalled"
  | malformed _ => "ParseError"
  | json _ => "Json"

end UnitError

end Metrology
