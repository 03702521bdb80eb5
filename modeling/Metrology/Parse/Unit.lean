import Metrology.Expr.Basic
import Metrology.Parse.Basic
import Metrology.Text.Superscript

/-!
# Reading unit expressions

    unit   := term (spacing separator spacing term)*
    term   := factor power?
    factor := '1' | symbol | '(' spacing unit spacing ')'
    power  := '^' sign? digits | raised-sign? raised-digits

Products and quotients have the same rank and group to the left. After the first term an
expression ends where it cannot be continued, so that a faulty continuation is left over and not
reported as a fault of its own; a group whose inside is faulty is no factor at all.

Groups nest, and the readers of terms take the reader of what is inside a group as an argument.
`unitWithin depth` closes this loop for groups nested up to a depth.
-/
namespace Metrology.Parse

/-- The characters that symbols are made of: all but blanks, decimal digits, raised digits and the
signs with a meaning of their own. -/
def isSymbolChar (c : Char) : Bool :=
  !(isBlank c || c.isDigit || ['*', '/', '·', '⋅', '^', '(', ')', '+', '-'].contains c ||
    (Superscript.value? c).isSome || c == '⁻' || c == '⁺')

/-! ### Powers -/

/-- The largest number that digits may denote in a power. -/
def maxExponent : Nat := 2147483647

/-- The number that a row of digits denotes, if there is a digit and the number is not too large. -/
def exponent? (digits : List Nat) : Option Nat :=
  let n := digits.foldl (fun n digit => 10 * n + digit) 0
  if digits.isEmpty || maxExponent < n then none else some n

/-- An optional sign: true for the negative one. -/
def sign (minus plus : Char) : List Char → Bool × List Char
  | [] => (false, [])
  | c :: rest => if c = minus then (true, rest) else if c = plus then (false, rest)
    else (false, c :: rest)

/-- A sign and digits, given the two signs and the values of the digits. -/
def signedDigits? (minus plus : Char) (value? : Char → Option Nat) (text : List Char) :
    Option (Int × List Char) := do
  let (negative, rest) := sign minus plus text
  let digits := rest.takeWhile fun c => (value? c).isSome
  let n ← exponent? (digits.filterMap value?)
  return (if negative then -(n : Int) else n, rest.dropWhile fun c => (value? c).isSome)

def digitValue? (c : Char) : Option Nat := if c.isDigit then some (c.toNat - '0'.toNat) else none

def power? : List Char → Option (Int × List Char)
  | '^' :: rest => signedDigits? '-' '+' digitValue? rest
  | text => signedDigits? '⁻' '⁺' Superscript.value? text

/-! ### Terms -/

inductive Separator where
  | times | per
  deriving DecidableEq

def Separator.join : Separator → Expr String → Expr String → Expr String
  | times, left, right => .mul [left, right]
  | per, left, right => .frac left right

def separator? : List Char → Option (Separator × List Char)
  | '*' :: rest | '·' :: rest | '⋅' :: rest => some (.times, rest)
  | '/' :: rest => some (.per, rest)
  | _ => none

def symbol (text : List Char) : Outcome (Expr String) :=
  match text.takeWhile isSymbolChar with
  | [] => .error ⟨false, .factor, text⟩
  | name => .ok (.atom (String.ofList name), text.dropWhile isSymbolChar)

def factor (inside : List Char → Outcome (Expr String)) (text : List Char) :
    Outcome (Expr String) :=
  match text with
  | '(' :: rest =>
    match inside (dropSpacing rest) with
    | .ok (e, rest) =>
      match dropSpacing rest with
      | ')' :: rest => .ok (e, rest)
      | _ => .error ⟨false, .factor, text⟩
    | .error _ => .error ⟨false, .factor, text⟩
  | '1' :: rest => .ok (.noUnit, rest)
  | _ => symbol text

def term (inside : List Char → Outcome (Expr String)) (text : List Char) :
    Outcome (Expr String) :=
  match factor inside text with
  | .error fault => .error fault
  | .ok (base, rest) =>
    match power? rest with
    | none => .ok (base, rest)
    | some (n, rest) =>
      match base.powi? n with
      | some e => .ok (e, rest)
      | none => .error ⟨false, .power, text⟩

/-- Join up to a number of further terms to an expression, as long as there are any. -/
def continued (inside : List Char → Outcome (Expr String)) :
    Nat → Expr String → List Char → Expr String × List Char
  | 0, e, text => (e, text)
  | more + 1, e, text =>
    match separator? (dropSpacing text) with
    | none => (e, text)
    | some (separator, rest) =>
      match term inside (dropSpacing rest) with
      | .error _ => (e, text)
      | .ok (next, rest) => continued inside more (separator.join e next) rest

/-- An expression with groups nested to a depth less than the given one. Each further term takes a
character for its separator, so that there are no more terms than characters. -/
def unitWithin : Nat → List Char → Outcome (Expr String)
  | 0, text => .error ⟨false, .factor, text⟩
  | depth + 1, text =>
    match term (unitWithin depth) text with
    | .error fault => .error fault
    | .ok (first, rest) => .ok (continued (unitWithin depth) rest.length first rest)

/-- An expression at the start of a text. Groups nest no deeper than the text is long. -/
def unitExpr (text : List Char) : Outcome (Expr String) := unitWithin (text.length + 1) text

/-- The expression that a text denotes; the blank text denotes no unit. -/
def unit (text : String) : Except UnitError (Expr String) :=
  match trimBlanks text.toList with
  | [] => .ok .noUnit
  | trimmed => complete (unitExpr trimmed)

end Metrology.Parse
