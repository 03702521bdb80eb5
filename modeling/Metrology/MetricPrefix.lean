import Metrology.Factor

/-!
# Metric prefixes

The decimal prefixes from nano to mega. Their symbols are plain letters, `u` for micro and `D` for
deca, so that every unit can be typed.
-/
namespace Metrology

inductive MetricPrefix where
  | nano | micro | milli | centi | deci | unit | deca | hecto | kilo | mega
  deriving DecidableEq

namespace MetricPrefix

/-- All prefixes in ascending order, `unit` standing for none. -/
def all : List MetricPrefix :=
  [nano, micro, milli, centi, deci, unit, deca, hecto, kilo, mega]

def power : MetricPrefix → Int
  | nano => -9
  | micro => -6
  | milli => -3
  | centi => -2
  | deci => -1
  | unit => 0
  | deca => 1
  | hecto => 2
  | kilo => 3
  | mega => 6

def symbol : MetricPrefix → String
  | nano => "n"
  | micro => "u"
  | milli => "m"
  | centi => "c"
  | deci => "d"
  | unit => ""
  | deca => "D"
  | hecto => "h"
  | kilo => "k"
  | mega => "M"

/-- The exact multiplier, such as `1/1000` for milli. -/
def factor (p : MetricPrefix) : Option Factor := Factor.powi? 10 p.power

end MetricPrefix

end Metrology
