import Metrology.Proofs.Parse.Grammar

/-!
# Reading numbers and powers

Digits are read as the number that they denote in the decimal system, unless it is too large, and a
sign in front of them is taken along. So the powers that are read are those of the grammar
(`power_of_power?`), and each power of the grammar is read to its end where no digit follows
(`Signed.signedDigits?`).
-/
namespace Metrology.Parse

open Superscript

variable {minus plus : Char} {value? : Char → Option Nat} {row text read rest : List Char} {n : Nat}
  {power : Int}

/-! ### Digits -/

theorem foldl_eq_ofDigits (values : List Nat) :
    values.foldl (fun n digit => 10 * n + digit) 0 = Nat.ofDigits 10 values.reverse := by
  rw [Nat.ofDigits_eq_foldr, List.foldr_reverse]
  simp [Nat.add_comm]

theorem exponent?_eq_some_iff {values : List Nat} :
    exponent? values = some n ↔
      values ≠ [] ∧ n = Nat.ofDigits 10 values.reverse ∧ n ≤ maxExponent := by
  unfold exponent?
  rw [foldl_eq_ofDigits]
  constructor
  · intro found
    dsimp only at found
    split at found
    · cases found
    next proper =>
      obtain rfl := Option.some.inj found
      simp only [Bool.or_eq_true, List.isEmpty_iff, decide_eq_true_eq, not_or] at proper
      exact ⟨proper.1, rfl, Nat.not_lt.mp proper.2⟩
  · rintro ⟨some, rfl, small⟩
    simp [some, small]

theorem filterMap_of_map_eq {values : List Nat} (digits : row.map value? = values.map some) :
    row.filterMap value? = values := by
  have whole := congrArg (List.filterMap id) digits
  simpa [List.filterMap_map] using whole

theorem map_eq_of_isSome (all : ∀ c ∈ row, (value? c).isSome = true) :
    row.map value? = (row.filterMap value?).map some := by
  induction row with
  | nil => rfl
  | cons c row ih =>
    obtain ⟨value, first⟩ := Option.isSome_iff_exists.mp (all c (by simp))
    rw [List.map_cons, List.filterMap_cons_some first, List.map_cons, first,
      ih fun other member => all other (by simp [member])]

/-- Digits that are read as an exponent are a numeral. -/
theorem numeral_of_exponent? (all : ∀ c ∈ row, (value? c).isSome = true)
    (found : exponent? (row.filterMap value?) = some n) : Numeral value? row n := by
  obtain ⟨some, value, small⟩ := exponent?_eq_some_iff.mp found
  exact ⟨_, some, map_eq_of_isSome all, value, small⟩

/-- A numeral is a row of digits, with a first one, and is read as its exponent. -/
theorem Numeral.digits (numeral : Numeral value? row n) :
    row ≠ [] ∧ (∀ c ∈ row, (value? c).isSome = true) ∧
      exponent? (row.filterMap value?) = some n := by
  obtain ⟨values, some, digits, value, small⟩ := numeral
  refine ⟨?_, ?_, ?_⟩
  · rintro rfl
    exact some (by simpa using digits.symm)
  · intro c member
    have image : value? c ∈ values.map Option.some := digits ▸ List.mem_map_of_mem member
    obtain ⟨value, -, same⟩ := List.mem_map.mp image
    rw [← same]
    rfl
  · rw [filterMap_of_map_eq digits]
    exact exponent?_eq_some_iff.mpr ⟨some, value, small⟩

/-! ### Signs -/

/-- The sign that is taken off a text goes with any digits. -/
theorem exists_sign (minus plus : Char) (value? : Char → Option Nat) (text : List Char) :
    ∃ mark, text = mark ++ (sign minus plus text).2 ∧ ∀ row n, Numeral value? row n →
      Signed minus plus value? (mark ++ row) (if (sign minus plus text).1 then -(n : Int) else n) := by
  cases text with
  | nil => exact ⟨[], rfl, fun _ _ numeral => .unsigned numeral⟩
  | cons c others =>
    by_cases isMinus : c = minus
    · have taken : sign minus plus (c :: others) = (true, others) := by simp [sign, isMinus]
      rw [taken, isMinus]
      exact ⟨[minus], rfl, fun _ _ numeral => .negative numeral⟩
    · by_cases isPlus : c = plus
      · have taken : sign minus plus (c :: others) = (false, others) := by
          rw [sign, if_neg isMinus, if_pos isPlus]
        rw [taken, isPlus]
        exact ⟨[plus], rfl, fun _ _ numeral => .positive numeral⟩
      · have taken : sign minus plus (c :: others) = (false, c :: others) := by
          rw [sign, if_neg isMinus, if_neg isPlus]
        rw [taken]
        exact ⟨[], rfl, fun _ _ numeral => .unsigned numeral⟩

theorem signed_of_signedDigits? (found : signedDigits? minus plus value? text = some (power, rest)) :
    ∃ read, text = read ++ rest ∧ Signed minus plus value? read power := by
  simp only [signedDigits?, bind, Option.bind_eq_some_iff, pure, Option.some.injEq,
    Prod.mk.injEq] at found
  obtain ⟨n, number, rfl, rfl⟩ := found
  obtain ⟨mark, split, signed⟩ := exists_sign minus plus value? text
  have digits := List.all_eq_true.mp
    (List.all_takeWhile (p := fun c => (value? c).isSome) (l := (sign minus plus text).2))
  refine ⟨_, ?_, signed _ n (numeral_of_exponent? digits number)⟩
  rw [List.append_assoc, List.takeWhile_append_dropWhile]
  exact split

theorem sign_numeral (numeral : Numeral value? row n) (noMinus : value? minus = none)
    (noPlus : value? plus = none) (rest : List Char) :
    sign minus plus (row ++ rest) = (false, row ++ rest) := by
  obtain ⟨some, digits, -⟩ := numeral.digits
  obtain ⟨c, others, rfl⟩ := List.exists_cons_of_ne_nil some
  have digit := digits c (by simp)
  -- The signs are no digits.
  have notMinus : c ≠ minus := by rintro rfl; simp [noMinus] at digit
  have notPlus : c ≠ plus := by rintro rfl; simp [noPlus] at digit
  simp [sign, notMinus, notPlus]

theorem signedDigits?_of_numeral (numeral : Numeral value? row n) {negative : Bool}
    (signed : sign minus plus text = (negative, row ++ rest))
    (stops : ∀ c ∈ rest.head?, (value? c).isSome = false) :
    signedDigits? minus plus value? text =
      some (if negative then -(n : Int) else n, rest) := by
  obtain ⟨-, digits, number⟩ := numeral.digits
  obtain ⟨taken, left⟩ := span_append digits stops
  simp [signedDigits?, signed, taken, left, number]

theorem Signed.signedDigits? (signed : Signed minus plus value? read power) (noMinus : value? minus = none)
    (noPlus : value? plus = none) (differ : plus ≠ minus)
    (stops : ∀ c ∈ rest.head?, (value? c).isSome = false) :
    Parse.signedDigits? minus plus value? (read ++ rest) = some (power, rest) := by
  cases signed with
  | unsigned numeral =>
    exact signedDigits?_of_numeral numeral (sign_numeral numeral noMinus noPlus rest) stops
  | @positive row n numeral =>
    have marked : sign minus plus (plus :: row ++ rest) = (false, row ++ rest) := by
      simp [sign, differ]
    exact signedDigits?_of_numeral numeral marked stops
  | @negative row n numeral =>
    have marked : sign minus plus (minus :: row ++ rest) = (true, row ++ rest) := by simp [sign]
    exact signedDigits?_of_numeral numeral marked stops

theorem Signed.head (signed : Signed minus plus value? read power) :
    ∃ c others, read = c :: others ∧ (c = minus ∨ c = plus ∨ (value? c).isSome = true) := by
  cases signed with
  | unsigned numeral =>
    obtain ⟨some, digits, -⟩ := numeral.digits
    obtain ⟨c, others, rfl⟩ := List.exists_cons_of_ne_nil some
    exact ⟨c, others, rfl, .inr (.inr (digits c (by simp)))⟩
  | positive => exact ⟨plus, _, rfl, .inr (.inl rfl)⟩
  | negative => exact ⟨minus, _, rfl, .inl rfl⟩

/-! ### Powers -/

theorem power_of_power? (found : power? text = some (power, rest)) :
    ∃ read, text = read ++ rest ∧ Power read power := by
  unfold power? at found
  split at found
  next others =>
    obtain ⟨read, rfl, signed⟩ := signed_of_signedDigits? found
    exact ⟨'^' :: read, rfl, .hat signed⟩
  next =>
    obtain ⟨read, split, signed⟩ := signed_of_signedDigits? found
    exact ⟨read, split, .raised signed⟩

/-- The characters that powers begin with. -/
def beginsPower (c : Char) : Bool :=
  c == '^' || c == '⁻' || c == '⁺' || (Superscript.value? c).isSome

theorem Power.begins (raised : Power read power) :
    ∃ c others, read = c :: others ∧ beginsPower c = true := by
  cases raised with
  | hat => exact ⟨'^', _, rfl, by decide⟩
  | raised signed =>
    obtain ⟨c, others, rfl, rfl | rfl | digit⟩ := signed.head
    · exact ⟨'⁻', others, rfl, by decide⟩
    · exact ⟨'⁺', others, rfl, by decide⟩
    · exact ⟨c, others, rfl, by simp [beginsPower, digit]⟩

/-- A power begins with a character that no symbol has. -/
theorem Power.head (raised : Power read power) :
    ∃ c others, read = c :: others ∧ isSymbolChar c = false := by
  obtain ⟨c, others, rfl, begins⟩ := raised.begins
  refine ⟨c, others, rfl, ?_⟩
  simp only [beginsPower, Bool.or_eq_true, beq_iff_eq, or_assoc] at begins
  rcases begins with rfl | rfl | rfl | digit
  · decide
  · decide
  · decide
  · simp [isSymbolChar, digit]

end Metrology.Parse
