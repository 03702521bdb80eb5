/-!
# Blank characters

Two classes are told apart: the characters with the Unicode property White_Space, which are
trimmed from both ends of a text and end a symbol, and the narrower space and tab, which may
stand around a separator.
-/
namespace Metrology

def isBlank (c : Char) : Bool :=
  let n := c.toNat
  (0x09 ≤ n && n ≤ 0x0D) || n == 0x20 || n == 0x85 || n == 0xA0 || n == 0x1680 ||
    (0x2000 ≤ n && n ≤ 0x200A) || n == 0x2028 || n == 0x2029 || n == 0x202F || n == 0x205F ||
    n == 0x3000

def isSpacing (c : Char) : Bool := c == ' ' || c == '\t'

/-- The text from its first to its last character that is not blank. -/
def trimBlanks (text : List Char) : List Char :=
  ((text.dropWhile isBlank).reverse.dropWhile isBlank).reverse

/-- The text after the spaces and tabs at its start. -/
def dropSpacing (text : List Char) : List Char := text.dropWhile isSpacing

theorem isBlank_of_isSpacing {c : Char} (spacing : isSpacing c = true) : isBlank c = true := by
  simp only [isSpacing, Bool.or_eq_true, beq_iff_eq] at spacing
  rcases spacing with rfl | rfl <;> decide

end Metrology
