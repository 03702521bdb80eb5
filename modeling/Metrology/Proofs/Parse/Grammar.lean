import Mathlib.Data.Nat.Digits.Defs
import Metrology.Proofs.Parse.Terms

/-!
# The grammar of unit expressions

    unit   := term (spacing separator spacing term)*
    term   := factor power?
    factor := '1' | symbol | '(' spacing unit spacing ')'
    power  := '^' sign? digits | raised-sign? raised-digits

`Derives` says which texts are expressions and what they mean, with one rule for each alternative
and without any reader. Nothing in it is about the order in which alternatives are tried, about how
far a piece of text reaches, or about what is done when a piece cannot be read.

The tree so far is handed on from term to term (`Phrase.further`), so that terms are joined from the
left. A symbol has no rule that stops it early: no phrase goes on with a symbol character after a
symbol, so that in a derivation every symbol is as long as it can be.
-/
namespace Metrology.Parse

/-! ### Powers -/

/-- A row of digits denotes a number in the decimal system, and the number may stand in a power. -/
def Numeral (value? : Char → Option Nat) (row : List Char) (n : Nat) : Prop :=
  ∃ values : List Nat, values ≠ [] ∧ row.map value? = values.map some ∧
    n = Nat.ofDigits 10 values.reverse ∧ n ≤ maxExponent

/-- Digits behind an optional sign. -/
inductive Signed (minus plus : Char) (value? : Char → Option Nat) : List Char → Int → Prop
  | unsigned {row : List Char} {n : Nat} (numeral : Numeral value? row n) :
      Signed minus plus value? row n
  | positive {row : List Char} {n : Nat} (numeral : Numeral value? row n) :
      Signed minus plus value? (plus :: row) n
  | negative {row : List Char} {n : Nat} (numeral : Numeral value? row n) :
      Signed minus plus value? (minus :: row) (-n)

inductive Power : List Char → Int → Prop
  | hat {text : List Char} {n : Int} (signed : Signed '-' '+' digitValue? text n) :
      Power ('^' :: text) n
  | raised {text : List Char} {n : Int} (signed : Signed '⁻' '⁺' Superscript.value? text n) :
      Power text n

/-! ### Phrases -/

/-- The characters that join terms. -/
inductive Separates : Char → Separator → Prop
  | star : Separates '*' .times
  | dot : Separates '·' .times
  | operator : Separates '⋅' .times
  | bar : Separates '/' .per

/-- Spaces and tabs, any number of them. -/
def Spacing (text : List Char) : Prop := ∀ c ∈ text, isSpacing c = true

/-- The kinds of phrases; what follows a term means something together with what came before. -/
inductive Phrase where
  | unit
  | further (left : Expr String)
  | term
  | factor

/-- The text is a phrase of its kind and means the tree. -/
inductive Derives : Phrase → List Char → Expr String → Prop
  | unit {first tail : List Char} {left e : Expr String} (term : Derives .term first left)
      (more : Derives (.further left) tail e) : Derives .unit (first ++ tail) e
  | last (e : Expr String) : Derives (.further e) [] e
  | next {before after piece tail : List Char} {c : Char} {separator : Separator}
      {left right e : Expr String} (spacing : Spacing before) (separates : Separates c separator)
      (spacingAfter : Spacing after) (term : Derives .term piece right)
      (more : Derives (.further (separator.join left right)) tail e) :
      Derives (.further left) (before ++ c :: (after ++ (piece ++ tail))) e
  | plain {text : List Char} {e : Expr String} (factor : Derives .factor text e) :
      Derives .term text e
  | raised {text power : List Char} {n : Int} {base e : Expr String}
      (factor : Derives .factor text base) (exponent : Power power n)
      (defined : base.powi? n = some e) : Derives .term (text ++ power) e
  | one : Derives .factor ['1'] .noUnit
  | symbol {name : List Char} (symbolic : IsSymbol name) :
      Derives .factor name (.atom (String.ofList name))
  | group {before text after : List Char} {e : Expr String} (spacing : Spacing before)
      (inside : Derives .unit text e) (spacingAfter : Spacing after) :
      Derives .factor ('(' :: (before ++ (text ++ (after ++ [')'])))) e

/-- The text, less the blanks around it, is blank and denotes no unit, or is an expression. -/
def Denotes (text : String) (e : Expr String) : Prop :=
  (trimBlanks text.toList = [] ∧ e = .noUnit) ∨ Derives .unit (trimBlanks text.toList) e

end Metrology.Parse
