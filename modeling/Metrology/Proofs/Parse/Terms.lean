import Mathlib.Data.Nat.Notation
import Metrology.Parse.Unit
import Metrology.Proofs.Composite.Powers

/-!
# Reading a written term back

A term is written as a symbol followed by raised digits. If the symbol is made of symbol characters
and the exponent is within the limit, the term reads back and takes up just its own characters.
Otherwise no reader gets past it: either there is no such term, or what is left begins with a digit
that nothing can be done with (`Stuck`).
-/
namespace Metrology

/-- A number is written with decimal digits. -/
theorem isDigit_of_mem_toDigits {n : Nat} {c : Char} (member : c ∈ Nat.toDigits 10 n) :
    c.isDigit = true := Nat.isDigit_of_mem_toDigits (by decide) (by decide) member

/-! ### Raised digits -/

namespace Superscript

/-- The raised digits of a number. -/
def row (n : Nat) : List Char := (Nat.toDigits 10 n).map raise

theorem toList_ofNat (n : Nat) : (ofNat n).toList = if n = 1 then [] else row n := by
  unfold ofNat row
  split <;> simp

/-- What ten cases show holds of every decimal digit. -/
theorem digit_cases {P : Char → Prop} (each : ∀ d : Fin 10, P (Char.ofNat (48 + d))) {c : Char}
    (digit : c.isDigit = true) : P c := by
  obtain ⟨low, high⟩ : 48 ≤ c.toNat ∧ c.toNat ≤ 57 := Char.isDigit_iff_toNat.mp digit
  have here := each ⟨c.toNat - 48, by omega⟩
  have same : 48 + (c.toNat - 48) = c.toNat := by omega
  simp only [same, Char.ofNat_toNat] at here
  exact here

/-- What ten cases show holds of every raised digit. -/
theorem raised_cases {P : Char → Prop} (each : ∀ d : Fin digits.length, P (digits.get d)) {c : Char}
    (raised : (value? c).isSome = true) : P c := by
  have member : c ∈ digits := by simpa [value?] using raised
  obtain ⟨d, rfl⟩ := List.get_of_mem member
  exact each d

theorem value?_raise {c : Char} (digit : c.isDigit = true) :
    value? (raise c) = some (c.toNat - '0'.toNat) :=
  digit_cases (P := fun c => value? (raise c) = some (c.toNat - '0'.toNat)) (by decide) digit

theorem value?_of_mem_row {n : Nat} {c : Char} (member : c ∈ row n) : (value? c).isSome = true := by
  obtain ⟨digit, present, rfl⟩ := List.mem_map.mp member
  rw [value?_raise (isDigit_of_mem_toDigits present)]
  rfl

theorem row_ne_nil (n : Nat) : row n ≠ [] := by
  simp [row, Nat.toDigits_ne_nil]

theorem filterMap_value?_raise {digits : List Char} (all : ∀ c ∈ digits, c.isDigit = true) :
    (digits.map raise).filterMap value? = digits.map fun c => c.toNat - '0'.toNat := by
  induction digits with
  | nil => rfl
  | cons c digits ih =>
    have first := value?_raise (all c (by simp))
    have rest := ih fun other member => all other (by simp [member])
    rw [List.map_cons, List.filterMap_cons_some first, rest, List.map_cons]

/-- The values of the raised digits make up the number. -/
theorem foldl_values_row (n : Nat) :
    ((row n).filterMap value?).foldl (fun n digit => 10 * n + digit) 0 = n := by
  rw [row, filterMap_value?_raise fun _ => isDigit_of_mem_toDigits, List.foldl_map,
    ← Nat.ofDigitChars_eq_foldl, Nat.ofDigitChars_ten_toDigits]

end Superscript

namespace Parse

open Superscript

/-- A row of characters of one kind ends where the next one is not of this kind. -/
theorem span_append {p : Char → Bool} {row rest : List Char} (all : ∀ c ∈ row, p c = true)
    (stops : ∀ c ∈ rest.head?, p c = false) :
    (row ++ rest).takeWhile p = row ∧ (row ++ rest).dropWhile p = rest := by
  have ends : rest.takeWhile p = [] ∧ rest.dropWhile p = rest := by
    cases rest with
    | nil => exact ⟨rfl, rfl⟩
    | cons c rest => simp [stops c rfl]
  rw [List.takeWhile_append_of_pos all, List.dropWhile_append_of_pos all, ends.1, ends.2,
    List.append_nil]
  exact ⟨rfl, rfl⟩

/-- What may follow a term: nothing, a separator or the end of a group. -/
def Boundary : List Char → Prop
  | [] => True
  | c :: _ => c = '·' ∨ c = '/' ∨ c = ')'

/-- The text begins with a digit, decimal or raised. -/
def Stuck : List Char → Prop
  | [] => False
  | c :: _ => c.isDigit = true ∨ (value? c).isSome = true

/-- What holds of all digits holds of the first character. -/
theorem Stuck.head {rest : List Char} {c : Char} {P : Char → Prop} (stuck : Stuck (c :: rest))
    (decimal : ∀ d : Fin 10, P (Char.ofNat (48 + d)))
    (raised : ∀ d : Fin Superscript.digits.length, P (Superscript.digits.get d)) : P c :=
  stuck.elim (digit_cases decimal) (raised_cases raised)

/-- What holds of the three characters holds of the next one. -/
theorem Boundary.head {rest : List Char} {P : Char → Prop} (boundary : Boundary rest)
    (each : P '·' ∧ P '/' ∧ P ')') : ∀ c ∈ rest.head?, P c := by
  intro c member
  cases rest with
  | nil => cases member
  | cons d rest =>
    obtain rfl : d = c := Option.some.inj member
    rcases boundary with rfl | rfl | rfl
    · exact each.1
    · exact each.2.1
    · exact each.2.2

/-! ### Powers -/

theorem power?_eq_none {text : List Char}
    (other : ∀ c ∈ text.head?, c ≠ '^' ∧ c ≠ '⁻' ∧ c ≠ '⁺' ∧ value? c = none) :
    power? text = none := by
  cases text with
  | nil => rfl
  | cons c rest =>
    obtain ⟨noHat, noMinus, noPlus, noDigit⟩ := other c rfl
    simp [power?, noHat, signedDigits?, sign, noMinus, noPlus, noDigit, exponent?]

theorem power?_boundary {rest : List Char} (boundary : Boundary rest) : power? rest = none :=
  power?_eq_none (boundary.head (by decide))

theorem power?_digit {c : Char} {rest : List Char} (digit : c.isDigit = true) :
    power? (c :: rest) = none := by
  refine power?_eq_none fun d member => ?_
  obtain rfl : c = d := Option.some.inj member
  exact digit_cases (P := fun c => c ≠ '^' ∧ c ≠ '⁻' ∧ c ≠ '⁺' ∧ value? c = none) (by decide) digit

theorem exponent?_row (n : Nat) :
    exponent? ((row n).filterMap value?) = if maxExponent < n then none else some n := by
  have some : (row n).filterMap value? ≠ [] := by
    obtain ⟨c, rest, first⟩ := List.exists_cons_of_ne_nil (row_ne_nil n)
    obtain ⟨digit, value⟩ := Option.isSome_iff_exists.mp
      (value?_of_mem_row (n := n) (c := c) (by simp [first]))
    simp [first, List.filterMap_cons_some value]
  simp [exponent?, foldl_values_row, some]

/-- A row of raised digits is read to its end. -/
theorem power?_row (n : Nat) {rest : List Char} (boundary : Boundary rest) :
    power? (row n ++ rest) = if maxExponent < n then none else some ((n : Int), rest) := by
  have raised : ∀ c ∈ row n, (value? c).isSome = true := fun c member => value?_of_mem_row member
  have stops : ∀ c ∈ rest.head?, (value? c).isSome = false := boundary.head (by decide)
  obtain ⟨taken, left⟩ := span_append raised stops
  -- No raised digit is a hat or a sign.
  have plain : power? (row n ++ rest) = signedDigits? '⁻' '⁺' value? (row n ++ rest) ∧
      sign '⁻' '⁺' (row n ++ rest) = (false, row n ++ rest) := by
    obtain ⟨c, others, first⟩ := List.exists_cons_of_ne_nil (row_ne_nil n)
    have digit : (value? c).isSome = true := raised c (by simp [first])
    have noHat : c ≠ '^' := by rintro rfl; cases digit
    have noMinus : c ≠ '⁻' := by rintro rfl; cases digit
    have noPlus : c ≠ '⁺' := by rintro rfl; cases digit
    simp [first, power?, noHat, sign, noMinus, noPlus]
  rw [plain.1, signedDigits?, plain.2]
  simp only [taken, left, exponent?_row]
  split <;> simp

end Parse
theorem Composite.boundedPowi?_single (a : String) (n : Nat) :
    (single a).boundedPowi? n = if n ≤ exponentLimit then some ((single a).zpow n) else none := by
  split
  next within => exact boundedPowi?_eq_some_iff.mpr ⟨rfl, withinLimit_zpow_single.mpr within⟩
  next beyond => exact boundedPowi?_eq_none_iff.mpr (mt withinLimit_zpow_single.mp beyond)

namespace Parse

open Superscript

/-! ### Symbols -/

/-- The text is one symbol from its first to its last character. -/
def IsSymbol (text : List Char) : Prop := text ≠ [] ∧ text.all isSymbolChar = true

instance : DecidablePred IsSymbol := fun text =>
  inferInstanceAs (Decidable (text ≠ [] ∧ text.all isSymbolChar = true))

theorem isSymbolChar_boundary {rest : List Char} (boundary : Boundary rest) :
    ∀ c ∈ rest.head?, isSymbolChar c = false := boundary.head (by decide)

theorem isSymbolChar_of_stuck {rest : List Char} (stuck : Stuck rest) :
    ∀ c ∈ rest.head?, isSymbolChar c = false := by
  intro c member
  cases rest with
  | nil => cases member
  | cons d rest =>
    obtain rfl : d = c := Option.some.inj member
    exact stuck.head (P := fun c => isSymbolChar c = false) (by decide) (by decide)

theorem factor_symbol (inside : List Char → Outcome (Expr String)) {text rest : List Char}
    (symbolic : IsSymbol text) (stops : ∀ c ∈ rest.head?, isSymbolChar c = false) :
    factor inside (text ++ rest) = .ok (.atom (String.ofList text), rest) := by
  have all := List.all_eq_true.mp symbolic.2
  obtain ⟨taken, left⟩ := span_append all stops
  obtain ⟨c, others, first⟩ := List.exists_cons_of_ne_nil symbolic.1
  -- A symbol begins neither like a group nor like the digit one.
  have starts : isSymbolChar c = true := all c (by simp [first])
  have noGroup : c ≠ '(' := by rintro rfl; exact absurd starts (by decide)
  have noOne : c ≠ '1' := by rintro rfl; exact absurd starts (by decide)
  have read : symbol (text ++ rest) = .ok (.atom (String.ofList text), rest) := by
    unfold symbol
    rw [taken, left, first]
  rw [← read, first]
  simp [factor, noGroup, noOne]

/-! ### Terms -/

/-- The tree that a written power of a symbol reads as. -/
def powerTree (symbol : String) (n : Nat) : Expr String :=
  if n = 1 then .atom symbol else .ofComposite ((Composite.single symbol).zpow n)

theorem stuck_row (n : Nat) (rest : List Char) : Stuck (row n ++ rest) := by
  obtain ⟨c, others, first⟩ := List.exists_cons_of_ne_nil (row_ne_nil n)
  rw [first]
  exact .inr (value?_of_mem_row (n := n) (c := c) (by simp [first]))

variable (inside : List Char → Outcome (Expr String)) {text rest : List Char} {n : Nat}

theorem factor_power (symbolic : IsSymbol text) (other : n ≠ 1) :
    factor inside (text ++ (ofNat n).toList ++ rest) =
      .ok (.atom (String.ofList text), row n ++ rest) := by
  rw [toList_ofNat, if_neg other, List.append_assoc]
  exact factor_symbol inside symbolic (isSymbolChar_of_stuck (stuck_row n rest))

theorem powi?_atom (symbol : String) :
    (Expr.atom symbol).powi? n = if n ≤ Composite.exponentLimit then
      some (.ofComposite ((Composite.single symbol).zpow n)) else none := by
  rw [Expr.powi?, Expr.composite_atom, Composite.boundedPowi?_single]
  split <;> rfl

/-- A power within the limit reads back. -/
theorem term_power (symbolic : IsSymbol text) (within : n ≤ Composite.exponentLimit)
    (boundary : Boundary rest) :
    term inside (text ++ (ofNat n).toList ++ rest) =
      .ok (powerTree (String.ofList text) n, rest) := by
  by_cases one : n = 1
  · -- An exponent of one is not written.
    have read := factor_symbol inside symbolic (isSymbolChar_boundary boundary)
    simp [toList_ofNat, powerTree, one, term, read, power?_boundary boundary]
  · -- Exponents within the limit are far from the largest that digits may denote.
    have readable : ¬ maxExponent < n := by
      unfold Composite.exponentLimit at within
      unfold maxExponent
      omega
    simp only [term, factor_power inside symbolic one, power?_row n boundary, if_neg readable,
      powi?_atom, if_pos within, powerTree, if_neg one]

/-- A power beyond the limit does not. -/
theorem stuck_of_large (symbolic : IsSymbol text) (large : Composite.exponentLimit < n)
    (boundary : Boundary rest) {e : Expr String} {left : List Char}
    (read : term inside (text ++ (ofNat n).toList ++ rest) = .ok (e, left)) : Stuck left := by
  have other : n ≠ 1 := by
    rintro rfl
    exact absurd large (by decide)
  simp only [term, factor_power inside symbolic other, power?_row n boundary] at read
  by_cases unreadable : maxExponent < n
  · -- The digits are too many for any power and stay where they are.
    simp only [unreadable, if_true, Except.ok.injEq, Prod.mk.injEq] at read
    rw [← read.2]
    exact stuck_row n rest
  · -- The power is read and refused, with the whole term.
    simp [unreadable, powi?_atom, Nat.not_le.mpr large] at read

/-- After the sign for a nameless atom its number is left. -/
theorem stuck_of_number {number : List Char} (some : number ≠ [])
    (digits : ∀ c ∈ number, c.isDigit = true) {e : Expr String} {left : List Char}
    (read : term inside ('#' :: number ++ rest) = .ok (e, left)) : Stuck left := by
  obtain ⟨c, others, first⟩ := List.exists_cons_of_ne_nil some
  have digit : c.isDigit = true := digits c (by simp [first])
  have stuck : Stuck (c :: (others ++ rest)) := .inl digit
  have sign : IsSymbol ['#'] := by decide
  have named := factor_symbol inside sign (isSymbolChar_of_stuck stuck)
  -- The sign alone is a symbol, and what follows is no power.
  have split : '#' :: number ++ rest = ['#'] ++ c :: (others ++ rest) := by simp [first]
  simp only [split, term, named, power?_digit digit, Except.ok.injEq, Prod.mk.injEq] at read
  exact read.2 ▸ stuck

end Parse

end Metrology
