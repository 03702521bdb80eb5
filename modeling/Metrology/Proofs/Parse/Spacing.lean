import Metrology.Proofs.Parse.Numbers

/-!
# Space between number and unit

A number without an exponent and a unit are read as a quantity with any spacing between them, and
mostly without any. The exception is a unit that begins with the letter that announces an exponent:
written right behind the digits, the letter is taken for one, and as no unit goes on with the digits
of an exponent, the text is refused.
-/
namespace Metrology.Parse

open Decimal Superscript

variable {text rest others name : List Char} {literal : Literal} {c : Char} {e : Expr String}
  {value : Float}

/-! ### Numbers without an exponent -/

/-- Digits with at most one point, behind an optional sign, and the number that they denote. -/
inductive PlainNumber : List Char → Literal → Prop
  | unsigned {text : List Char} {n : Nat} {k : Int} (positional : Positional text n k) :
      PlainNumber text ⟨false, n, k⟩
  | positive {text : List Char} {n : Nat} {k : Int} (positional : Positional text n k) :
      PlainNumber ('+' :: text) ⟨false, n, k⟩
  | negative {text : List Char} {n : Nat} {k : Int} (positional : Positional text n k) :
      PlainNumber ('-' :: text) ⟨true, n, k⟩

theorem PlainNumber.exists_body (written : PlainNumber text literal) (rest : List Char) :
    ∃ body, Positional body literal.digits literal.exponent ∧
      sign '-' '+' (text ++ rest) = (literal.negative, body ++ rest) := by
  cases written with
  | unsigned positional => exact ⟨text, positional, positional.unsigned rest⟩
  | positive positional => exact ⟨_, positional, by simp [sign]⟩
  | negative positional => exact ⟨_, positional, by simp [sign]⟩

theorem PlainNumber.number (written : PlainNumber text literal) (ends : NumberEnds rest) :
    Parse.number (text ++ rest) = .ok (literal.toFloat, rest) := by
  obtain ⟨body, positional, signed⟩ := written.exists_body rest
  exact positional.number ends signed

theorem PlainNumber.dense (written : PlainNumber text literal) : ∀ c ∈ text, isBlank c = false := by
  cases written with
  | unsigned positional => exact positional.dense
  | positive positional | negative positional =>
    exact List.forall_mem_cons.mpr ⟨by decide, positional.dense⟩

theorem PlainNumber.ne_nil (written : PlainNumber text literal) : text ≠ [] := by
  cases written with
  | unsigned positional =>
    obtain ⟨c, others, rfl, -⟩ := positional.head
    simp
  | positive | negative => simp

/-! ### What follows the letter of an exponent -/

/-- A digit or a sign. -/
def ContinuesExponent (c : Char) : Prop := c.isDigit = true ∨ c = '-' ∨ c = '+'

/-- What holds of ten digits and two signs holds of whatever continues an exponent. -/
theorem ContinuesExponent.cases {P : Char → Prop} (continues : ContinuesExponent c)
    (digit : ∀ d : Fin 10, P (Char.ofNat (48 + d))) (minus : P '-') (plus : P '+') : P c := by
  rcases continues with decimal | rfl | rfl
  · exact digit_cases digit decimal
  · exact minus
  · exact plus

/-- Of a symbol before a digit or a sign no more than the symbol is read. -/
theorem unitExpr_symbol (symbolic : IsSymbol name) (continues : ContinuesExponent c) :
    unitExpr (name ++ c :: rest) = .ok (.atom (String.ofList name), c :: rest) := by
  have noSymbol : isSymbolChar c = false :=
    continues.cases (P := fun c => isSymbolChar c = false) (by decide) (by decide) (by decide)
  have noPower := continues.cases (P := fun c => c ≠ '^' ∧ c ≠ '⁻' ∧ c ≠ '⁺' ∧ value? c = none)
    (by decide) (by decide) (by decide)
  have noSpacing : isSpacing c = false :=
    continues.cases (P := fun c => isSpacing c = false) (by decide) (by decide) (by decide)
  have noSeparator := continues.cases (P := fun c => c ≠ '*' ∧ c ≠ '·' ∧ c ≠ '⋅' ∧ c ≠ '/')
    (by decide) (by decide) (by decide)
  have only : ∀ {P : Char → Prop}, P c → ∀ d ∈ (c :: rest).head?, P d := fun holds d first =>
    Option.some.inj first ▸ holds
  have read : ∀ inside, factor inside (name ++ c :: rest) =
      .ok (.atom (String.ofList name), c :: rest) :=
    fun inside => factor_symbol inside symbolic (only noSymbol)
  have stops : separator? (dropSpacing (c :: rest)) = none := by
    rw [dropSpacing_eq_self (only noSpacing)]
    simp [separator?, noSeparator]
  rw [unitExpr, unitWithin, term, read]
  simp only [power?_eq_none (only noPower), continued_of_separator?_eq_none _ stops]

/-- A unit that begins with the letter of an exponent does not go on like one. -/
theorem exponent_fault (marker : c = 'e' ∨ c = 'E') (derived : Derives .unit (c :: others) e)
    (start : List Char) : exponent start (c :: others) = .error ⟨true, .number, start⟩ := by
  have symbolic : IsSymbol [c] := by rcases marker with rfl | rfl <;> decide
  have other : ∀ d ∈ others.head?, ¬ ContinuesExponent d := by
    intro d first continues
    obtain ⟨rest, rfl⟩ : ∃ rest, others = d :: rest := ⟨_, List.eq_cons_of_mem_head? first⟩
    -- The letter would be all that is read of the unit.
    have whole := unitExpr_eq_ok_iff.mpr derived
    have stopped : unitExpr ([c] ++ d :: rest) = .ok (.atom (String.ofList [c]), d :: rest) :=
      unitExpr_symbol symbolic continues
    rw [List.singleton_append, whole] at stopped
    simp at stopped
  have unsigned : sign '-' '+' others = (false, others) := by
    cases others with
    | nil => rfl
    | cons d rest =>
      have notMinus : d ≠ '-' := fun minus => other d rfl (.inr (.inl minus))
      have notPlus : d ≠ '+' := fun plus => other d rfl (.inr (.inr plus))
      simp [sign, notMinus, notPlus]
  have noDigits : digits others = ([], others) := by
    cases others with
    | nil => rfl
    | cons d rest =>
      have noDigit : d.isDigit = false :=
        Bool.eq_false_iff.mpr fun digit => other d rfl (.inl digit)
      simp [digits, noDigit]
  rcases marker with rfl | rfl <;> simp [exponent, unsigned, noDigits]

/-! ### Quantities -/

/-- A trimmed text ends with something that is not blank. -/
theorem exists_last {text : List Char} (trimmed : trimBlanks text = text) (some : text ≠ []) :
    ∃ inner last, text = inner ++ [last] ∧ isBlank last = false := by
  have left : (text.dropWhile isBlank).reverse.dropWhile isBlank ≠ [] := by
    intro none
    rw [trimBlanks, none] at trimmed
    exact some trimmed.symm
  obtain ⟨last, inner, split⟩ := List.exists_cons_of_ne_nil left
  refine ⟨inner.reverse, last, ?_, ?_⟩
  · rw [← trimmed, trimBlanks, split, List.reverse_cons]
  · have dense := List.head_dropWhile_not isBlank left
    simpa [split] using dense

/-- Nothing is trimmed from a text that begins with a number and ends with a trimmed one. -/
theorem trimBlanks_number (written : PlainNumber text literal) {after : List Char}
    (trimmed : trimBlanks after = after) (some : after ≠ []) (middle : List Char) :
    trimBlanks (text ++ middle ++ after) = text ++ middle ++ after := by
  obtain ⟨inner, last, split, dense⟩ := exists_last trimmed some
  obtain ⟨first, others, rfl⟩ := List.exists_cons_of_ne_nil written.ne_nil
  exact trimBlanks_of_ends (first :: others ++ middle ++ inner) (written.dense first (by simp))
    dense (by simp [split])

/-- What the error says when the letter of an exponent is followed by none. -/
def noExponent (text : String) : UnitError :=
  .malformed (Fault.message ⟨true, .number, text.toList⟩)

variable {number spaces s : String}

theorem quantity_of_number (written : PlainNumber number.toList literal) :
    quantity number = .ok (literal.toFloat, .noUnit) := by
  have ends : NumberEnds [] := fun c first => nomatch first
  have read := written.number ends
  rw [List.append_nil] at read
  rw [quantity, trimBlanks_eq_self written.dense, quantityExpr_of_number read]
  rfl

/-- A number that ends where the spacing or the unit begins is read with the unit. -/
theorem quantity_spaced (written : PlainNumber number.toList literal)
    (spacing : Spacing spaces.toList) (trimmed : trimBlanks s.toList = s.toList) (derived : Derives .unit s.toList e)
    (ends : NumberEnds (spaces.toList ++ s.toList)) :
    quantity (number ++ spaces ++ s) = .ok (literal.toFloat, e) := by
  have some : s.toList ≠ [] := by
    obtain ⟨c, others, split, -⟩ := derived.starts
    simp [split]
  have read := written.number ends
  rw [← List.append_assoc] at read
  rw [quantity, String.toList_append, String.toList_append, trimBlanks_number written trimmed some,
    quantityExpr_of_unit spacing read derived]
  rfl

/-- A number before the letter of an exponent is not read. -/
theorem quantity_unspaced (written : PlainNumber number.toList literal)
    (trimmed : trimBlanks s.toList = s.toList) (derived : Derives .unit s.toList e)
    (begins : s.toList = c :: others) (marker : c = 'e' ∨ c = 'E') :
    quantity (number ++ s) = .error (noExponent (number ++ s)) := by
  have ends : DigitsEnd s.toList := by
    intro d first
    obtain rfl : c = d := by simpa [begins] using first
    rcases marker with rfl | rfl <;> decide
  obtain ⟨body, positional, signed⟩ := written.exists_body s.toList
  have faulty := exponent_fault marker (begins ▸ derived) (number.toList ++ s.toList)
  rw [← begins] at faulty
  have refused := positional.number_fault ends signed faulty
  have whole := trimBlanks_number written trimmed (by simp [begins]) []
  rw [List.append_nil] at whole
  rw [quantity, String.toList_append, whole, quantityExpr, refused, noExponent,
    String.toList_append]
  rfl

/-- The number alone denotes its value. With any spacing between them, number and unit are read as
the value and the unit. Without spacing they are unless the unit begins with the letter of an
exponent: then they are refused. -/
theorem spacing_is_optional (written : PlainNumber number.toList literal)
    (spacing : Spacing spaces.toList) (trimmed : trimBlanks s.toList = s.toList)
    (begins : s.toList = c :: others) (letter : c.isDigit = false ∧ c ≠ '.')
    (read : unit s = .ok e) :
    quantity number = .ok (literal.toFloat, .noUnit) ∧
      quantity (number ++ spaces ++ s) =
        if spaces = "" ∧ (c = 'e' ∨ c = 'E') then .error (noExponent (number ++ s))
        else .ok (literal.toFloat, e) := by
  have some : s ≠ "" := by
    rintro rfl
    simp at begins
  have derived := derives_of_unit trimmed some read
  refine ⟨quantity_of_number written, ?_⟩
  split
  next unspaced =>
    obtain ⟨rfl, marker⟩ := unspaced
    rw [String.append_empty]
    exact quantity_unspaced written trimmed derived begins marker
  next separate =>
    refine quantity_spaced written spacing trimmed derived fun d first => ?_
    by_cases none : spaces = ""
    · subst none
      obtain rfl : c = d := by simpa [begins] using first
      have noMarker := not_or.mp fun marker => separate ⟨rfl, marker⟩
      exact ⟨letter.1, letter.2, noMarker.1, noMarker.2⟩
    · -- A space or a tab ends every number.
      obtain ⟨blank, others, split⟩ :=
        List.exists_cons_of_ne_nil fun empty => none (String.toList_eq_nil_iff.mp empty)
      obtain rfl : blank = d := by simpa [split] using first
      rcases mem_of_isSpacing (spacing blank (by simp [split])) with rfl | rfl <;> decide

/-- A temperature may be written without a space, an energy in electronvolts with one. -/
theorem celsius_takes_no_space :
    quantity "-40°C" = .ok ((-40 : Float), .atom "°C") ∧
      quantity "5 \teV" = .ok ((5 : Float), .atom "eV") := by
  have forty : PlainNumber "-40".toList ⟨true, 40, 0⟩ :=
    .negative (@Positional.whole ['4', '0'] (by simp) (by simp))
  have five : PlainNumber "5".toList ⟨false, 5, 0⟩ :=
    .unsigned (@Positional.whole ['5'] (by simp) (by simp))
  have none : Spacing "".toList := by simp [Spacing]
  have wide : Spacing " \t".toList := by simp [Spacing, isSpacing]
  have degree : unit "°C" = .ok (.atom "°C") := by decide +kernel
  have electronvolt : unit "eV" = .ok (.atom "eV") := by decide +kernel
  have celsius := (spacing_is_optional forty none (by decide) rfl (by decide) degree).2
  have electronvolts := (spacing_is_optional five wide (by decide) rfl (by decide) electronvolt).2
  rw [if_neg (by decide)] at celsius electronvolts
  have minusForty : Literal.toFloat ⟨true, 40, 0⟩ = (-40 : Float) := by decide +kernel
  have plusFive : Literal.toFloat ⟨false, 5, 0⟩ = (5 : Float) := by decide +kernel
  rw [minusForty] at celsius
  rw [plusFive] at electronvolts
  exact ⟨celsius, electronvolts⟩

/-- An energy of five electronvolts is refused when no space stands between number and unit. -/
theorem exponent_letter_needs_space :
    unit "eV" = .ok (.atom "eV") ∧ quantity "5" = .ok ((5 : Float), .noUnit) ∧
      quantity "5 eV" = .ok ((5 : Float), .atom "eV") ∧
        quantity "5eV" = .error (noExponent "5eV") := by
  decide +kernel

end Metrology.Parse
