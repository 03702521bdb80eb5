import Metrology.Scalar

/-!
# Factors: exact ratios between units

A factor is a rational number in lowest terms whose numerator and denominator have to fit in 128
bits. Every operation is exact; it has no result where the exact one does not fit.
-/
namespace Metrology

/-- The worth of a unit in base units of its scale. -/
abbrev Factor := Rat

namespace Factor

/-- The first number that does not fit in 128 bits, two's complement: the 127th power of two. -/
def bound : Int := 170141183460469231731687303715884105728

/-- Numerator and denominator are 128-bit numbers. -/
def fits (f : Factor) : Bool := -bound ≤ f.num && f.num < bound && (f.den : Int) < bound

def checked (f : Factor) : Option Factor := if fits f then some f else none

/-- The factor `num / den`; a unit cannot be worth nothing, nor a fraction of nothing. -/
def ofWords? (num den : UInt64) : Option Factor :=
  if num = 0 || den = 0 then none else some (mkRat num.toNat den.toNat)

def mul? (f g : Factor) : Option Factor := checked (f * g)

def div? (f g : Factor) : Option Factor := if g = 0 then none else checked (f / g)

/-- Square `base` once for every further binary digit of the exponent, from the second lowest on, and
take the square into the product `acc` where the digit is one. -/
def powLoop? (acc base : Factor) (exponent : Nat) : Option Factor :=
  if exponent ≤ 1 then some acc
  else do
    let square ← mul? base base
    if exponent / 2 % 2 = 1 then do
      let acc ← mul? acc square
      powLoop? acc square (exponent / 2)
    else powLoop? acc square (exponent / 2)
termination_by exponent

/-- Natural power by repeated squaring. As long as the exponent is even the base is squared, and its
lowest digit that is one begins the product. No square is computed for a digit beyond the highest
one, so that the power is missing only if it does not fit itself. -/
def pow? (base : Factor) (exponent : Nat) : Option Factor :=
  if exponent = 0 then some 1
  else if exponent % 2 = 1 then powLoop? base base exponent
  else do
    let square ← mul? base base
    pow? square (exponent / 2)
termination_by exponent

/-- Integer power; a negative one is a power of the reciprocal. -/
def powi? (f : Factor) (n : Int) : Option Factor := do
  let base ← if n < 0 then div? 1 f else some f
  pow? base n.natAbs

/-! ### Factors applied to values -/

variable {V : Type} [Scalar V]

def toScalar (f : Factor) : V := Scalar.ofInt f.num / Scalar.ofInt (f.den : Int)

/-- Multiply a value by a factor. The numerator is applied before the denominator, so that an
integral factor rescales an integral value exactly. -/
def apply (f : Factor) (value : V) : V :=
  if f = 1 then value else value * Scalar.ofInt f.num / Scalar.ofInt (f.den : Int)

def unapply (f : Factor) (value : V) : V :=
  if f = 1 then value else value * Scalar.ofInt (f.den : Int) / Scalar.ofInt f.num

end Factor

end Metrology
