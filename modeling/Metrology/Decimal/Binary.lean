/-!
# Finite doubles as exact numbers

The magnitude of a finite double is `mantissa · 2 ^ exponent`. The reals that are read as this
double form an interval around it, half a step to either side; at a power of two the step below is
half as wide. The ends belong to the interval exactly when the mantissa is even.
-/
namespace Metrology.Decimal

/-- The magnitude of a finite double, with the width of the step below it. -/
structure Magnitude where
  mantissa : Nat
  exponent : Int
  /-- The next double below is half as far away as the next one above. -/
  narrowBelow : Bool

namespace Magnitude

/-- Smallest exponent of a double: the step between subnormal numbers. -/
def minExponent : Int := -1074

/-- The smallest mantissa of a normal number, which has 53 binary digits. -/
def minNormal : Nat := 4503599627370496

/-- The magnitude that the low 63 bits of a finite double encode: eleven digits of an exponent and
below them the mantissa, without the leading digit that all normal numbers have. -/
def ofBits (bits : UInt64) : Magnitude :=
  let field := (bits.toNat / minNormal) % 2048
  let fraction := bits.toNat % minNormal
  if field = 0 then ⟨fraction, minExponent, false⟩
  else ⟨minNormal + fraction, minExponent + (field - 1 : Nat), fraction = 0 && field > 1⟩

/-- A quotient of natural numbers with a common denominator: the magnitude itself and the ends of
the interval of reals that round to it. -/
structure Interval where
  low : Nat
  value : Nat
  high : Nat
  denominator : Nat
  /-- The ends round to the magnitude, too. -/
  closed : Bool

/-- The interval in quarters of a step, so that all three numbers are whole. -/
def interval (x : Magnitude) : Interval :=
  let quarters := 4 * x.mantissa
  let shift := x.exponent - 2
  let scale := Nat.pow 2 shift.toNat
  { low := (quarters - if x.narrowBelow then 1 else 2) * scale
    value := quarters * scale
    high := (quarters + 2) * scale
    denominator := Nat.pow 2 (-shift).toNat
    closed := x.mantissa % 2 == 0 }

def toRat (x : Magnitude) : Rat := x.mantissa * 2 ^ x.exponent

end Magnitude

def exact (x : Float) : Rat :=
  let magnitude := (Magnitude.ofBits x.toBits).toRat
  if x < 0 then -magnitude else magnitude

end Metrology.Decimal
