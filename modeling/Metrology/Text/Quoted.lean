import Metrology.Text.Unprintable

/-!
# Quoted text

A text inside a message stands between double quotes. Quotes and backslashes inside it are marked
by a backslash, the usual controls have letters, and every other character that is not printable
is given by its code point.
-/
namespace Metrology.Quoted

/-- The escape of a code point, in lower-case hexadecimal digits without leading zeros. -/
def codePoint (c : Char) : List Char :=
  ['\\', 'u', '\x7b'] ++ Nat.toDigits 16 c.toNat ++ ['\x7d']

/-- A character as it stands between quotes. -/
def escapeChar (c : Char) : List Char :=
  match c with
  | '"' => ['\\', '"']
  | '\\' => ['\\', '\\']
  | '\t' => ['\\', 't']
  | '\r' => ['\\', 'r']
  | '\n' => ['\\', 'n']
  | '\x00' => ['\\', '0']
  | _ => if isUnprintable c then codePoint c else [c]

/-- A text between quotes. -/
def quote (text : List Char) : String :=
  String.ofList ('"' :: text.flatMap escapeChar ++ ['"'])

end Metrology.Quoted
