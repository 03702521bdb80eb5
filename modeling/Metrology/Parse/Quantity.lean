import Metrology.Decimal.Literal
import Metrology.Parse.Unit

/-!
# Reading numbers and quantities

    quantity := number spacing unit?
    number   := sign? (digits ('.' digits?)? | '.' digits) ('e' sign? digits)?
              | 'nan' | 'inf'

The letters of `e`, `nan` and `inf` may be capital. An `e` after the digits of a number always
announces an exponent, even where a unit could follow.
-/
namespace Metrology.Parse

/-- Decimal digits and the text after them. -/
def digits (text : List Char) : List Char × List Char :=
  (text.takeWhile Char.isDigit, text.dropWhile Char.isDigit)

/-- The number that decimal digits denote. -/
def digitsValue (digits : List Char) : Nat :=
  digits.foldl (fun n c => 10 * n + (c.toNat - '0'.toNat)) 0

/-- The digits before and after the point, of which there is at least one. -/
def significand? (text : List Char) : Option ((List Char × List Char) × List Char) :=
  let (whole, rest) := digits text
  match rest with
  | '.' :: after =>
    let (fraction, rest) := digits after
    if whole.isEmpty && fraction.isEmpty then none else some ((whole, fraction), rest)
  | _ => if whole.isEmpty then none else some ((whole, []), rest)

/-- An optional exponent. The letter without digits after it is a fault. -/
def exponent (start text : List Char) : Outcome Int :=
  match text with
  | 'e' :: rest | 'E' :: rest =>
    let (negative, rest) := sign '-' '+' rest
    match digits rest with
    | ([], _) => .error ⟨true, .number, start⟩
    | (places, rest) =>
      .ok (if negative then -(digitsValue places : Int) else digitsValue places, rest)
  | _ => .ok (0, text)

/-- A word at the start of a text, in small or capital letters. -/
def word? (word text : List Char) : Option (List Char) :=
  if (text.take word.length).map Char.toLower = word then some (text.drop word.length) else none

/-- The names of values that are no numbers. -/
def special? (text : List Char) : Option (Float × List Char) :=
  match word? ['n', 'a', 'n'] text with
  | some rest => some (Float.ofBits 0x7FF8000000000000, rest)
  | none => (word? ['i', 'n', 'f'] text).map fun rest => (Float.ofBits 0x7FF0000000000000, rest)

/-- A number at the start of a text. -/
def number (text : List Char) : Outcome Float :=
  let (negative, rest) := sign '-' '+' text
  match significand? rest with
  | some ((whole, fraction), rest) =>
    match exponent text rest with
    | .error fault => .error fault
    | .ok (exponent, rest) =>
      let literal : Decimal.Literal :=
        ⟨negative, digitsValue (whole ++ fraction), exponent - fraction.length⟩
      .ok (literal.toFloat, rest)
  | none =>
    match special? text with
    | some found => .ok found
    | none => .error ⟨false, .number, text⟩

/-- A number and a unit at the start of a text. Spacing after the number is taken even if no unit
follows. -/
def quantityExpr (text : List Char) : Outcome (Float × Expr String) :=
  match number text with
  | .error fault => .error fault
  | .ok (value, rest) =>
    match unitExpr (dropSpacing rest) with
    | .ok (unit, rest) => .ok ((value, unit), rest)
    | .error _ => .ok ((value, .noUnit), dropSpacing rest)

/-- The quantity that a text denotes. -/
def quantity (text : String) : Except UnitError (Float × Expr String) :=
  complete (quantityExpr (trimBlanks text.toList))

end Metrology.Parse
