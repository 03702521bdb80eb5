import Metrology.Proofs.Parse.Exponents
import Metrology.Proofs.Parse.Trees

/-!
# Texts put together

Expressions in parentheses can be joined by separators and raised to powers, and the text that comes
out is read as the corresponding tree (`unit_joined`). Integers are written behind the hat with
decimal digits, or with raised digits (`power_hat`, `power_raised`), and each of them is read as long
as it is small enough for a power.
-/
namespace Metrology

/-- An integer in raised digits, with a raised sign if it is negative. -/
def Superscript.signedRow (n : Int) : List Char := (if n < 0 then ['⁻'] else []) ++ row n.natAbs

namespace Parse

open Superscript

variable {minus plus : Char} {value? : Char → Option Nat} {text other : List Char}
  {e left right : Expr String}

/-! ### Written integers -/

/-- The digits of a number are a numeral in any way of writing digits. -/
theorem numeral_toDigits (write : Char → Char)
    (reads : ∀ c, c.isDigit = true → value? (write c) = some (c.toNat - '0'.toNat)) {n : Nat}
    (small : n ≤ maxExponent) : Numeral value? ((Nat.toDigits 10 n).map write) n := by
  refine ⟨(Nat.toDigits 10 n).map fun c => c.toNat - '0'.toNat, ?_, ?_, ?_, small⟩
  · simp [Nat.toDigits_ne_nil]
  · rw [List.map_map, List.map_map]
    exact List.map_congr_left fun c member => reads c (isDigit_of_mem_toDigits member)
  · rw [← foldl_eq_ofDigits, List.foldl_map, ← Nat.ofDigitChars_eq_foldl,
      Nat.ofDigitChars_ten_toDigits]

theorem signed_of_numeral {row : List Char} {n : Int} (numeral : Numeral value? row n.natAbs) :
    Signed minus plus value? ((if n < 0 then [minus] else []) ++ row) n := by
  split
  next negative =>
    have signed : Signed minus plus value? (minus :: row) (-(n.natAbs : Int)) := .negative numeral
    rwa [Int.ofNat_natAbs_of_nonpos (by omega), Int.neg_neg] at signed
  next notNegative =>
    have signed : Signed minus plus value? row (n.natAbs : Int) := .unsigned numeral
    rwa [Int.natAbs_of_nonneg (by omega)] at signed

theorem digitValue?_of_isDigit (c : Char) (digit : c.isDigit = true) :
    digitValue? c = some (c.toNat - '0'.toNat) := if_pos digit

theorem toList_toString_int (n : Int) :
    (toString n).toList = (if n < 0 then ['-'] else []) ++ Nat.toDigits 10 n.natAbs := by
  cases n with
  | ofNat m =>
    change (Nat.repr m).toList = _
    simp
  | negSucc m =>
    change ("-" ++ Nat.repr (m + 1)).toList = _
    simp

theorem power_hat {n : Int} (small : n.natAbs ≤ maxExponent) :
    Power ('^' :: (toString n).toList) n := by
  have numeral : Numeral digitValue? (Nat.toDigits 10 n.natAbs) n.natAbs := by
    simpa using numeral_toDigits id digitValue?_of_isDigit small
  rw [toList_toString_int]
  exact .hat (signed_of_numeral numeral)

theorem power_raised {n : Int} (small : n.natAbs ≤ maxExponent) : Power (signedRow n) n :=
  .raised (signed_of_numeral (numeral_toDigits raise (fun _ => value?_raise) small))

/-! ### Texts in parentheses -/

/-- Nothing is trimmed from a text that neither begins nor ends with a blank. -/
theorem trimBlanks_of_ends {first last : Char} (inner : List Char) (begins : isBlank first = false)
    (ends : isBlank last = false) (same : first :: text = inner ++ [last]) :
    trimBlanks (first :: text) = first :: text := by
  rw [trimBlanks, List.dropWhile_cons_of_neg (by simp [begins]), same, List.reverse_concat,
    List.dropWhile_cons_of_neg (by simp [ends]), List.reverse_cons, List.reverse_reverse]

theorem Derives.factor_of_unit (derived : Derives .unit text e) :
    Derives .factor (grouped text) e := by
  have group : Derives .factor ('(' :: ([] ++ (text ++ ([] ++ [')'])))) e :=
    .group spacing_nil derived spacing_nil
  exact group

/-- What a trimmed text that is not empty denotes is derived from all of it. -/
theorem derives_of_unit {text : String} (trimmed : trimBlanks text.toList = text.toList)
    (some : text ≠ "") (read : unit text = .ok e) : Derives .unit text.toList e := by
  rcases unit_eq_ok_iff.mp read with ⟨blank, -⟩ | derived
  · rw [trimmed] at blank
    exact absurd (String.toList_eq_nil_iff.mp blank) some
  · rwa [trimmed] at derived

/-- A text in parentheses that ends with no blank is left as it is. -/
theorem trimBlanks_grouped {tail : List Char} (ends : ∀ c ∈ tail, isBlank c = false) :
    trimBlanks (grouped text ++ tail) = grouped text ++ tail := by
  have first : isBlank '(' = false := by decide
  rcases List.eq_nil_or_concat tail with rfl | ⟨inner, last, rfl⟩
  · have closing : isBlank ')' = false := by decide
    exact trimBlanks_of_ends ('(' :: text) first closing (by simp)
  · exact trimBlanks_of_ends (grouped text ++ inner) first (ends last (by simp)) (by simp [grouped])

/-- Two expressions in parentheses with a separator between them are read as joined. -/
theorem unit_joined {text : String} {s t before after : List Char} {c : Char} {separator : Separator}
    (first : Derives .unit s left) (second : Derives .unit t right) (spacing : Spacing before)
    (separates : Separates c separator) (spacingAfter : Spacing after)
    (spelled : text.toList = grouped s ++ (before ++ c :: (after ++ grouped t))) :
    unit text = .ok (separator.join left right) := by
  have further : Derives (.further left) (before ++ c :: (after ++ (grouped t ++ [])))
      (separator.join left right) :=
    .next spacing separates spacingAfter second.term_of_unit (.last _)
  rw [List.append_nil] at further
  -- The outermost characters are parentheses, so that nothing is trimmed.
  have outermost : grouped s ++ (before ++ c :: (after ++ grouped t))
      = grouped (s ++ ')' :: (before ++ c :: (after ++ '(' :: t))) ++ [] := by
    simp [grouped]
  refine unit_eq_ok_iff.mpr (.inr ?_)
  rw [spelled, outermost, trimBlanks_grouped (List.forall_mem_nil _), ← outermost]
  exact .unit first.term_of_unit further

/-! ### Powers of texts in parentheses -/

theorem Signed.dense {n : Int} (signed : Signed minus plus value? text n)
    (denseMinus : isBlank minus = false) (densePlus : isBlank plus = false)
    (denseDigits : ∀ c, (value? c).isSome = true → isBlank c = false) :
    ∀ c ∈ text, isBlank c = false := by
  have dense : ∀ {row : List Char} {n : Nat}, Numeral value? row n → ∀ c ∈ row, isBlank c = false :=
    fun numeral c member => denseDigits c (numeral.digits.2.1 c member)
  cases signed with
  | unsigned numeral => exact dense numeral
  | positive numeral => exact List.forall_mem_cons.mpr ⟨densePlus, dense numeral⟩
  | negative numeral => exact List.forall_mem_cons.mpr ⟨denseMinus, dense numeral⟩

theorem isBlank_of_digitValue? (c : Char) (digit : (digitValue? c).isSome = true) :
    isBlank c = false := by
  have isDigit : c.isDigit = true := by
    by_contra other
    simp [digitValue?, other] at digit
  exact digit_cases (P := fun c => isBlank c = false) (by decide) isDigit

theorem Power.dense {n : Int} (power : Power text n) : ∀ c ∈ text, isBlank c = false := by
  cases power with
  | hat signed =>
    exact List.forall_mem_cons.mpr
      ⟨by decide, signed.dense (by decide) (by decide) isBlank_of_digitValue?⟩
  | raised signed =>
    exact signed.dense (by decide) (by decide) fun c =>
      raised_cases (P := fun c => isBlank c = false) (by decide)

end Parse

end Metrology
