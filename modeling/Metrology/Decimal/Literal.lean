/-!
# Decimal numbers as doubles

A decimal literal denotes an exact number, which is rounded once to the nearest double.
-/
namespace Metrology.Decimal

/-- The number `digits · 10 ^ exponent`, with a sign that zero keeps. -/
structure Literal where
  negative : Bool
  digits : Nat
  exponent : Int
  deriving DecidableEq

/-- The nearest double. A number of 310 digits before the point or more is beyond the largest
double, and one with 330 zeros after the point or more is below half the smallest, so that no
large power of ten has to be computed for them. -/
def Literal.toFloat (x : Literal) : Float :=
  let places := (Nat.toDigits 10 x.digits).length + x.exponent
  let magnitude : Float :=
    if x.digits = 0 || places ≤ -330 then 0
    else if 310 < places then Float.ofBits 0x7FF0000000000000
    else Float.ofScientific x.digits (x.exponent < 0) x.exponent.natAbs
  if x.negative then -magnitude else magnitude

end Metrology.Decimal
