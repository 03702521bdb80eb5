import Metrology.Decimal.Shortest

/-!
# Floating-point numbers as text

Two formats are in use, one for people and one for data. Both write the shortest decimal that
reads back; they differ in the exponents that are written positionally, in the fraction of whole
numbers, in the texts of numbers that are not finite, and in the choice between two decimals at
the same distance. A `Layout` holds these decisions.
-/
namespace Metrology.Decimal

structure Layout where
  tie : Tie
  /-- The decimal exponents of the first digit for which no exponent is written. -/
  positional : Int → Bool
  /-- Whole numbers end in `.0`. -/
  keepFraction : Bool
  nan : String
  infinity : String
  negativeInfinity : String

/-- The format of values for people: never an exponent, and no fraction where there is none. -/
def Layout.plain : Layout where
  tie := .up
  positional := fun _ => true
  keepFraction := false
  nan := "NaN"
  infinity := "inf"
  negativeInfinity := "-inf"

/-- The format of numbers in data: positional for exponents from -5 to 15, always recognisable as
a number with a fraction, and `null` for what is no number. -/
def Layout.data : Layout where
  tie := .even
  positional := fun exponent => -5 ≤ exponent && exponent ≤ 15
  keepFraction := true
  nan := "null"
  infinity := "null"
  negativeInfinity := "null"

def positionalText (keepFraction : Bool) (digits : List Char) (exponent : Int) : List Char :=
  if 0 ≤ exponent then
    digits ++ List.replicate exponent.toNat '0' ++ if keepFraction then ['.', '0'] else []
  else
    let places := (-exponent).toNat
    if places < digits.length then
      digits.take (digits.length - places) ++ '.' :: digits.drop (digits.length - places)
    else '0' :: '.' :: List.replicate (places - digits.length) '0' ++ digits

def scientificText (digits : List Char) (exponent : Int) : List Char :=
  let fraction := if digits.length ≤ 1 then [] else '.' :: digits.drop 1
  let sign := if exponent < 0 then '-' else '+'
  digits.take 1 ++ fraction ++ 'e' :: sign :: Nat.toDigits 10 exponent.natAbs

def Layout.scaledText (layout : Layout) (x : Scaled) : List Char :=
  let digits := Nat.toDigits 10 x.digits
  let first := x.exponent + digits.length - 1
  if layout.positional first then positionalText layout.keepFraction digits x.exponent
  else scientificText digits first

/-- The text of a floating-point number. A negative zero keeps its sign. -/
def Layout.text (layout : Layout) (x : Float) : String :=
  let negative := x.toBits ≥ 0x8000000000000000
  let magnitude := Magnitude.ofBits x.toBits
  if x.isNaN then layout.nan
  else if x.isInf then (if negative then layout.negativeInfinity else layout.infinity)
  else
    let scaled := if magnitude.mantissa = 0 then ⟨0, 0⟩ else magnitude.shortest layout.tie
    String.ofList ((if negative then ['-'] else []) ++ layout.scaledText scaled)

end Metrology.Decimal
