/-!
# Superscript exponents

Exponents are written in raised digits, and an exponent of one is not written at all.
-/
namespace Metrology.Superscript

def digits : List Char := ['⁰', '¹', '²', '³', '⁴', '⁵', '⁶', '⁷', '⁸', '⁹']

def raise (digit : Char) : Char := digits.getD (digit.toNat - '0'.toNat) digit

def value? (c : Char) : Option Nat := digits.idxOf? c

def ofNat (n : Nat) : String :=
  if n = 1 then "" else String.ofList ((Nat.toDigits 10 n).map raise)

end Metrology.Superscript
