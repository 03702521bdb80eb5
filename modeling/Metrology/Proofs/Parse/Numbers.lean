import Metrology.Parse.Quantity
import Metrology.Proofs.Decimal.ReadingBack
import Metrology.Proofs.Parse.Composition

/-!
# Reading numbers

Digits with at most one point between them are read to their end, unless what follows could belong
to the number (`NumberEnds`), and are read as the number that they denote. Both ways to write a
decimal without an exponent denote the decimal, so that a printed double is read back.
-/
namespace Metrology.Parse

open Decimal

variable {text row whole fraction start rest : List Char} {n : Nat} {k : Int} {negative : Bool}

/-! ### Digits and a point -/

/-- Decimal digits, with at most one point before, between or after them, and the number that they
denote as a whole number times a power of ten. -/
inductive Positional : List Char → Nat → Int → Prop
  | whole {row : List Char} (some : row ≠ []) (all : ∀ c ∈ row, c.isDigit = true) :
      Positional row (digitsValue row) 0
  | fraction {whole fraction : List Char} (some : whole ++ fraction ≠ [])
      (all : ∀ c ∈ whole ++ fraction, c.isDigit = true) :
      Positional (whole ++ '.' :: fraction) (digitsValue (whole ++ fraction)) (-fraction.length)

/-- What follows digits with a point neither continues them nor is a point. -/
def DigitsEnd (rest : List Char) : Prop := ∀ c ∈ rest.head?, c.isDigit = false ∧ c ≠ '.'

/-- What follows a number does not continue it. -/
def NumberEnds (rest : List Char) : Prop :=
  ∀ c ∈ rest.head?, c.isDigit = false ∧ c ≠ '.' ∧ c ≠ 'e' ∧ c ≠ 'E'

theorem NumberEnds.digits (ends : NumberEnds rest) : DigitsEnd rest := fun c first =>
  ⟨(ends c first).1, (ends c first).2.1⟩

theorem exponent_eq_zero (start : List Char) (ends : NumberEnds rest) :
    exponent start rest = .ok (0, rest) := by
  cases rest with
  | nil => rfl
  | cons c rest =>
    obtain ⟨-, -, small, capital⟩ := ends c rfl
    simp [exponent, small, capital]

theorem significand?_whole (some : row ≠ []) (all : ∀ c ∈ row, c.isDigit = true)
    (ends : DigitsEnd rest) :
    significand? (row ++ rest) = .some ((row, []), rest) := by
  obtain ⟨taken, left⟩ := span_append all fun c first => (ends c first).1
  simp only [significand?, digits, taken, left]
  split
  next point => exact absurd rfl (ends '.' (by simp)).2
  next => simp [some]

theorem significand?_fraction (some : whole ++ fraction ≠ [])
    (all : ∀ c ∈ whole ++ fraction, c.isDigit = true) (ends : DigitsEnd rest) :
    significand? (whole ++ '.' :: (fraction ++ rest)) = .some ((whole, fraction), rest) := by
  have point : ∀ c ∈ ('.' :: (fraction ++ rest)).head?, c.isDigit = false := by
    intro c first
    obtain rfl := Option.some.inj first
    decide
  obtain ⟨taken, left⟩ := span_append (fun c member => all c (List.mem_append_left _ member)) point
  obtain ⟨takenAfter, leftAfter⟩ := span_append
    (fun c member => all c (List.mem_append_right _ member)) fun c first => (ends c first).1
  have digit : (whole.isEmpty && fraction.isEmpty) = false := by
    cases whole <;> cases fraction <;> simp_all
  simp [significand?, digits, taken, left, takenAfter, leftAfter, digit]

theorem Positional.number (positional : Positional text n k) (ends : NumberEnds rest)
    (signed : sign '-' '+' start = (negative, text ++ rest)) :
    Parse.number start = .ok (Literal.toFloat ⟨negative, n, k⟩, rest) := by
  cases positional with
  | whole some all =>
    simp [Parse.number, signed, significand?_whole some all ends.digits,
      exponent_eq_zero start ends]
  | @fraction whole fraction some all =>
    rw [List.append_assoc, List.cons_append] at signed
    simp [Parse.number, signed, significand?_fraction some all ends.digits,
      exponent_eq_zero start ends]

/-- Digits do not make a number if what follows them announces an exponent and has none. -/
theorem Positional.number_fault {fault : Fault} (positional : Positional text n k)
    (ends : DigitsEnd rest) (signed : sign '-' '+' start = (negative, text ++ rest))
    (faulty : exponent start rest = .error fault) : Parse.number start = .error fault := by
  cases positional with
  | whole some all => simp [Parse.number, signed, significand?_whole some all ends, faulty]
  | @fraction whole fraction some all =>
    rw [List.append_assoc, List.cons_append] at signed
    simp [Parse.number, signed, significand?_fraction some all ends, faulty]

/-- The first character is a digit or the point. -/
theorem Positional.head (positional : Positional text n k) :
    ∃ c others, text = c :: others ∧ (c.isDigit = true ∨ c = '.') := by
  cases positional with
  | whole some all =>
    obtain ⟨c, others, rfl⟩ := List.exists_cons_of_ne_nil some
    exact ⟨c, others, rfl, .inl (all c (by simp))⟩
  | @fraction whole fraction some all =>
    cases whole with
    | nil => exact ⟨'.', fraction, rfl, .inr rfl⟩
    | cons c whole => exact ⟨c, _, rfl, .inl (all c (by simp))⟩

theorem Positional.dense (positional : Positional text n k) : ∀ c ∈ text, isBlank c = false := by
  have digit : ∀ c : Char, c.isDigit = true → isBlank c = false := fun c =>
    Superscript.digit_cases (P := fun c => isBlank c = false) (by decide)
  cases positional with
  | whole some all => exact fun c member => digit c (all c member)
  | @fraction whole fraction some all =>
    intro c member
    rcases List.mem_append.mp member with before | later
    · exact digit c (all c (List.mem_append_left _ before))
    · rcases List.mem_cons.mp later with rfl | after
      · decide
      · exact digit c (all c (List.mem_append_right _ after))

/-- Digits are taken for no sign. -/
theorem Positional.unsigned (positional : Positional text n k) (rest : List Char) :
    Parse.sign '-' '+' (text ++ rest) = (false, text ++ rest) := by
  obtain ⟨c, others, rfl, digit | rfl⟩ := positional.head
  · have notMinus : c ≠ '-' := by rintro rfl; cases digit
    have notPlus : c ≠ '+' := by rintro rfl; cases digit
    simp [Parse.sign, notMinus, notPlus]
  · simp [Parse.sign]

/-- A minus sign in front of digits is read. -/
theorem Positional.sign (positional : Positional text n k) (negative : Bool) (rest : List Char) :
    Parse.sign '-' '+' ((if negative then ['-'] else []) ++ text ++ rest) =
      (negative, text ++ rest) := by
  cases negative with
  | true => simp [Parse.sign]
  | false => exact positional.unsigned rest

/-! ### Decimals -/

theorem digitsValue_append (row other : List Char) :
    digitsValue (row ++ other) = Nat.ofDigitChars 10 other (digitsValue row) :=
  Nat.ofDigitChars_append (b := 10) 0

theorem digitsValue_toDigits (n : Nat) : digitsValue (Nat.toDigits 10 n) = n :=
  Nat.ofDigitChars_ten_toDigits

theorem digitsValue_zeros_append (count : Nat) (row : List Char) :
    digitsValue (List.replicate count '0' ++ row) = digitsValue row := by
  have zeros : digitsValue (List.replicate count '0') = 0 := Nat.ofDigitChars_replicate_zero
  rw [digitsValue_append, zeros]
  rfl

theorem isDigit_of_mem_zeros {c : Char} {count : Nat} (member : c ∈ List.replicate count '0') :
    c.isDigit = true := by
  obtain rfl := List.eq_of_mem_replicate member
  decide

/-- Zeros are added to the digits of a whole number. -/
theorem positional_whole (d : Nat) (whole : 0 ≤ k) :
    Positional (positionalText false (Nat.toDigits 10 d) k) (10 ^ k.toNat * d) 0 := by
  have value :
      digitsValue (Nat.toDigits 10 d ++ List.replicate k.toNat '0') = 10 ^ k.toNat * d := by
    rw [digitsValue_append, digitsValue_toDigits, Nat.ofDigitChars_replicate_zero]
  have spelled : positionalText false (Nat.toDigits 10 d) k =
      Nat.toDigits 10 d ++ List.replicate k.toNat '0' := by
    simp [positionalText, whole]
  rw [spelled, ← value]
  refine .whole ?_ fun c member => ?_
  · simp [Nat.toDigits_ne_nil]
  · exact (List.mem_append.mp member).elim isDigit_of_mem_toDigits isDigit_of_mem_zeros

/-- The point stands between the digits. -/
theorem positional_inside {d : Nat} (fractional : ¬ 0 ≤ k)
    (inside : (-k).toNat < (Nat.toDigits 10 d).length) :
    Positional (positionalText false (Nat.toDigits 10 d) k) d k := by
  set row := Nat.toDigits 10 d with row_eq
  set before := row.take (row.length - (-k).toNat) with before_eq
  set after := row.drop (row.length - (-k).toNat) with after_eq
  have parts : before ++ after = row := List.take_append_drop _ row
  have spelled : positionalText false row k = before ++ '.' :: after := by
    simp [positionalText, fractional, inside, before_eq, after_eq]
  have value : digitsValue (before ++ after) = d := by
    rw [parts, row_eq, digitsValue_toDigits]
  have places : -(after.length : Int) = k := by
    rw [after_eq, List.length_drop]
    omega
  have digits : Positional (before ++ '.' :: after) (digitsValue (before ++ after))
      (-after.length) := by
    refine .fraction ?_ ?_
    · rw [parts]
      exact Nat.toDigits_ne_nil
    · rw [parts]
      exact fun c => isDigit_of_mem_toDigits
  rwa [value, places, ← spelled] at digits

/-- All digits stand behind the point, after some zeros. -/
theorem positional_outside {d : Nat} (fractional : ¬ 0 ≤ k)
    (outside : ¬ (-k).toNat < (Nat.toDigits 10 d).length) :
    Positional (positionalText false (Nat.toDigits 10 d) k) d k := by
  set row := Nat.toDigits 10 d with row_eq
  set zeros := List.replicate ((-k).toNat - row.length) '0' with zeros_eq
  have spelled : positionalText false row k = ['0'] ++ '.' :: (zeros ++ row) := by
    simp [positionalText, fractional, outside, zeros_eq]
  have value : digitsValue (['0'] ++ (zeros ++ row)) = d := by
    rw [← List.append_assoc, zeros_eq, ← List.replicate_one, ← List.replicate_add,
      digitsValue_zeros_append, row_eq, digitsValue_toDigits]
  have places : -((zeros ++ row).length : Int) = k := by
    rw [List.length_append, zeros_eq, List.length_replicate]
    omega
  have digits : Positional (['0'] ++ '.' :: (zeros ++ row)) (digitsValue (['0'] ++ (zeros ++ row)))
      (-(zeros ++ row).length) := by
    refine .fraction (by simp) fun c member => ?_
    rcases List.mem_append.mp member with first | later
    · obtain rfl := List.mem_singleton.mp first
      decide
    · exact (List.mem_append.mp later).elim isDigit_of_mem_zeros isDigit_of_mem_toDigits
  rwa [value, places, ← spelled] at digits

/-- The text of a decimal without an exponent denotes the decimal. -/
theorem exists_positional (d : Nat) (k : Int) :
    ∃ n j, Positional (positionalText false (Nat.toDigits 10 d) k) n j ∧
      (n : Rat) * 10 ^ j = d * 10 ^ k := by
  by_cases whole : 0 ≤ k
  · refine ⟨_, _, positional_whole d whole, ?_⟩
    have power : (10 : Rat) ^ k = 10 ^ k.toNat := by
      rw [← zpow_natCast, Int.toNat_of_nonneg whole]
    rw [power]
    push_cast
    ring
  · by_cases inside : (-k).toNat < (Nat.toDigits 10 d).length
    · exact ⟨d, k, positional_inside whole inside, rfl⟩
    · exact ⟨d, k, positional_outside whole inside, rfl⟩

/-! ### Printed doubles -/

variable {x : Float}

/-- The text of a number is a sign and a decimal, which together denote the number. -/
theorem exists_text (isNumber : IsNumber x) : ∃ negative text n k,
    (Layout.plain.text x).toList = (if negative then ['-'] else []) ++ text ∧
      Positional text n k ∧ Literal.toFloat ⟨negative, n, k⟩ = x := by
  obtain ⟨n, k, positional, value⟩ :=
    exists_positional (scaled .up x).digits (scaled .up x).exponent
  refine ⟨decide (IsNegative x), _, n, k, ?_, positional, toFloat_eq_self isNumber rfl value⟩
  rw [Layout.text_of_isNumber _ isNumber]
  simp [Layout.scaledText, Layout.plain]

/-- A number is read back from its text, up to what follows it. -/
theorem number_text_of_isNumber (isNumber : IsNumber x) (ends : NumberEnds rest) :
    number ((Layout.plain.text x).toList ++ rest) = .ok (x, rest) := by
  obtain ⟨negative, text, n, k, spelled, positional, value⟩ := exists_text isNumber
  rw [spelled, positional.number ends (positional.sign negative rest), value]

theorem text_nan : Layout.plain.text nan = "NaN" := by decide +kernel

theorem text_infinity : Layout.plain.text infinity = "inf" := by decide +kernel

theorem text_negativeInfinity : Layout.plain.text negativeInfinity = "-inf" := by decide +kernel

/-- What is printed is read back, up to what follows it, unless it is negative infinity. -/
theorem number_text (expressible : x ≠ negativeInfinity) (ends : NumberEnds rest) :
    number ((Layout.plain.text x).toList ++ rest) = .ok (x, rest) := by
  rcases kind_cases x with isNumber | rfl | rfl | rfl
  · exact number_text_of_isNumber isNumber ends
  · rw [text_nan]
    rfl
  · rw [text_infinity]
    rfl
  · exact absurd rfl expressible

/-- The text of negative infinity begins with no number. -/
theorem number_text_negativeInfinity (rest : List Char) :
    number ((Layout.plain.text negativeInfinity).toList ++ rest) =
      .error ⟨false, .number, (Layout.plain.text negativeInfinity).toList ++ rest⟩ := by
  rw [text_negativeInfinity]
  rfl

/-! ### Quantities -/

variable {before after : List Char} {value : Float} {e : Expr String}

/-- Nothing is trimmed from a text that begins and ends with other characters than blanks. -/
theorem trimBlanks_between (someBefore : before ≠ [])
    (denseBefore : ∀ c ∈ before, isBlank c = false) (someAfter : after ≠ [])
    (denseAfter : ∀ c ∈ after, isBlank c = false) (middle : List Char) :
    trimBlanks (before ++ middle ++ after) = before ++ middle ++ after := by
  obtain ⟨first, others, rfl⟩ := List.exists_cons_of_ne_nil someBefore
  rcases List.eq_nil_or_concat after with rfl | ⟨inner, last, rfl⟩
  · exact absurd rfl someAfter
  · exact trimBlanks_of_ends (first :: others ++ middle ++ inner) (denseBefore first (by simp))
      (denseAfter last (by simp)) (by simp)

/-- A number alone is a quantity without a unit. -/
theorem quantityExpr_of_number {text : List Char} (read : number text = .ok (value, [])) :
    quantityExpr text = .ok ((value, .noUnit), []) := by
  rw [quantityExpr, read]
  rfl

/-- A number and a unit, with any spacing between them, are a quantity. -/
theorem quantityExpr_of_unit {text spaces unit : List Char} (spacing : Spacing spaces)
    (read : number text = .ok (value, spaces ++ unit)) (derived : Derives .unit unit e) :
    quantityExpr text = .ok ((value, e), []) := by
  have spaced : dropSpacing (spaces ++ (unit ++ [])) = unit ++ [] :=
    dropSpacing_phrase spacing derived.starts []
  rw [List.append_nil] at spaced
  rw [quantityExpr, read]
  simp only [spaced, unitExpr_eq_ok_iff.mpr derived]

theorem dense_of_all (all : (row.all fun c => !isBlank c) = true) :
    ∀ c ∈ row, isBlank c = false := by
  simpa using all

/-- Nothing that is printed has blanks. -/
theorem dense_text_number (x : Float) : ∀ c ∈ (Layout.plain.text x).toList, isBlank c = false := by
  rcases kind_cases x with isNumber | rfl | rfl | rfl
  · -- A minus sign, digits and a point.
    obtain ⟨negative, text, n, k, spelled, positional, -⟩ := exists_text isNumber
    intro c member
    rw [spelled] at member
    rcases List.mem_append.mp member with mark | inText
    · cases negative with
      | true =>
        obtain rfl := List.mem_singleton.mp mark
        decide
      | false => cases mark
    · exact positional.dense c inText
  · rw [text_nan]
    exact dense_of_all (by decide)
  · rw [text_infinity]
    exact dense_of_all (by decide)
  · rw [text_negativeInfinity]
    exact dense_of_all (by decide)

theorem text_number_ne_nil (x : Float) : (Layout.plain.text x).toList ≠ [] := by
  rcases kind_cases x with isNumber | rfl | rfl | rfl
  · obtain ⟨negative, text, n, k, spelled, positional, -⟩ := exists_text isNumber
    obtain ⟨c, others, rfl, -⟩ := positional.head
    simp [spelled]
  · simp [text_nan]
  · simp [text_infinity]
  · simp [text_negativeInfinity]

theorem numberEnds_space (unit : List Char) : NumberEnds (' ' :: unit) := by
  intro c first
  obtain rfl := Option.some.inj first
  decide

/-- The text of a value is a quantity without a unit. -/
theorem quantity_text (expressible : x ≠ negativeInfinity) :
    quantity (Layout.plain.text x) = .ok (x, .noUnit) := by
  have ends : NumberEnds [] := fun c first => nomatch first
  have read := number_text expressible ends
  rw [List.append_nil] at read
  rw [quantity, trimBlanks_eq_self (dense_text_number x), quantityExpr_of_number read]
  rfl

variable {unit : String}

theorem toList_spaced (value unit : String) :
    (value ++ " " ++ unit).toList = value.toList ++ ' ' :: unit.toList := by simp

theorem trimBlanks_text (x : Float) (some : unit.toList ≠ [])
    (dense : ∀ c ∈ unit.toList, isBlank c = false) :
    trimBlanks (Layout.plain.text x ++ " " ++ unit).toList =
      (Layout.plain.text x ++ " " ++ unit).toList := by
  rw [String.toList_append, String.toList_append,
    trimBlanks_between (text_number_ne_nil x) (dense_text_number x) some dense]

/-- The text of a value and, after a space, that of a unit are a quantity. -/
theorem quantity_text_unit (expressible : x ≠ negativeInfinity) (some : unit.toList ≠ [])
    (dense : ∀ c ∈ unit.toList, isBlank c = false) (read : Parse.unit unit = .ok e) :
    quantity (Layout.plain.text x ++ " " ++ unit) = .ok (x, e) := by
  rw [unit_eq_complete some dense, complete_eq_ok_iff, unitExpr_eq_ok_iff] at read
  have space : Spacing [' '] := by simp [Spacing, isSpacing]
  have whole : quantityExpr ((Layout.plain.text x).toList ++ ' ' :: unit.toList) =
      .ok ((x, e), []) :=
    quantityExpr_of_unit space (number_text expressible (numberEnds_space _)) read
  rw [quantity, trimBlanks_text x some dense, toList_spaced, whole]
  rfl

/-- What the error says when a text begins with no number. -/
def noNumber (text : String) : UnitError := .malformed (Fault.message ⟨false, .number, text.toList⟩)

/-- A text that begins with negative infinity is no quantity. -/
theorem quantity_negativeInfinity {text : String} (trimmed : trimBlanks text.toList = text.toList)
    (begins : text.toList = (Layout.plain.text negativeInfinity).toList ++ rest) :
    quantity text = .error (noNumber text) := by
  have refused := number_text_negativeInfinity rest
  rw [← begins] at refused
  rw [quantity, trimmed, quantityExpr, refused]
  rfl

end Metrology.Parse
