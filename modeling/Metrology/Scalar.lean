/-!
# Scalars: the numbers that values are made of

Values are floating-point numbers when the program runs and may be exact rationals when one
reasons about it. A conversion needs no more of them than the four operations below and the
integers among them, so it is written once for every such type.
-/
namespace Metrology

/-- The arithmetic that conversions use. -/
class Scalar (V : Type) extends Add V, Mul V, Div V, Neg V where
  ofInt : Int → V

instance : Scalar Float := ⟨Float.ofInt⟩

instance : Scalar Rat := ⟨fun n => (n : Rat)⟩

namespace Scalar

variable {V : Type} [Scalar V]

/-- Multiply `acc` by the power `base ^ exponent`: square the base for every binary digit of the
exponent and take it into the product where the digit is one. -/
def powerLoop (acc base : V) (exponent : Nat) : V :=
  if exponent = 0 then acc
  else powerLoop (if exponent % 2 = 1 then acc * base else acc) (base * base) (exponent / 2)
termination_by exponent

/-- Integer power by repeated squaring; a negative power is the reciprocal of the positive one. -/
def powi (base : V) (n : Int) : V :=
  let power := powerLoop (ofInt 1) base n.natAbs
  if n < 0 then ofInt 1 / power else power

end Scalar

end Metrology
