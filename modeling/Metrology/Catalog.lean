import Metrology.Registry.Arithmetic

/-!
# The standard catalog

Lengths, times, masses, temperatures, amounts, currents and what is derived from them, with metric
prefixes where they are usual and a few customary units. The base unit of mass is the kilogram.

Units such as the newton and the joule are units of derived scales and not alternative names, so
that their prefixed variants can carry factors. `N` and `kg·m/s²` are different units for this
reason, which convert into each other with the factor one.
-/
namespace Metrology.Catalog

open Declaring

def declare : Declaring PUnit := do
  -- Base scales.
  let distance ← scale "distance" "L"
  let time ← scale "time" "T"
  let mass ← scale "mass" "M"
  let kelvin ← scale "kelvin" "Θ"
  let celsius ← scale "celsius" "Θ°C"
  let fahrenheit ← scale "fahrenheit" "Θ°F"
  let amount ← scale "amount" "N"
  let current ← scale "current" "I"
  -- Derived scales.
  let area ← derivedScale "area" "L²" (.mul [.atom distance, .atom distance])
  let volume ← derivedScale "volume" "L³" (.mul [.atom distance, .atom distance, .atom distance])
  let speed ← derivedScale "speed" "v" (.frac (.atom distance) (.atom time))
  let acceleration ← derivedScale "acceleration" "a" (.frac (.atom speed) (.atom time))
  let force ← derivedScale "force" "F" (.mul [.atom mass, .atom acceleration])
  let energy ← derivedScale "energy" "E" (.mul [.atom force, .atom distance])
  let power ← derivedScale "power" "P" (.frac (.atom energy) (.atom time))
  let pressure ← derivedScale "pressure" "p" (.frac (.atom force) (.atom area))
  -- Lengths and times.
  let _ ← metricUnits "m" distance 1 1
  let _ ← unit "in" distance 127 5000
  let _ ← unit "ft" distance 381 1250
  let _ ← unit "mi" distance 201168 125
  let _ ← metricUnits "s" time 1 1
  let _ ← unit "min" time 60 1
  let _ ← unit "h" time 3600 1
  let _ ← unit "d" time 86400 1
  -- Masses, in which the prefixed unit is the base unit.
  let _ ← metricUnits "g" mass 1 1000
  -- Temperatures.
  let _ ← metricUnits "K" kelvin 1 1
  let _ ← unit "°C" celsius 1 1
  let _ ← unit "°F" fahrenheit 1 1
  -- Amounts and currents.
  let _ ← metricUnits "mol" amount 1 1
  let _ ← metricUnits "A" current 1 1
  -- Units of derived scales.
  let _ ← metricUnits "L" volume 1 1000
  let _ ← unit "kn" speed 463 900
  let _ ← metricUnits "N" force 1 1
  let _ ← metricUnits "J" energy 1 1
  let _ ← unit "Wh" energy 3600 1
  let _ ← unit "kWh" energy 3600000 1
  let _ ← metricUnits "W" power 1 1
  let _ ← metricUnits "Pa" pressure 1 1
  let _ ← unit "bar" pressure 100000 1
  -- Temperature scales differ by an offset.
  conversion kelvin celsius (.shift (-273.15)) (some (.shift 273.15))
  let celsiusToFahrenheit : Affine Float := ⟨1.8, 32⟩
  conversion celsius fahrenheit celsiusToFahrenheit (some celsiusToFahrenheit.inverse)
  let kelvinToFahrenheit : Affine Float := ⟨1.8, -459.67⟩
  conversion kelvin fahrenheit kelvinToFahrenheit (some kelvinToFahrenheit.inverse)

def standard (tag : Nat) : Registry := (declare (.empty tag)).2

end Metrology.Catalog
