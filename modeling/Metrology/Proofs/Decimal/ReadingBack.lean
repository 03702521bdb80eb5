import Metrology.Decimal.Layout
import Metrology.Proofs.Decimal.Reading
import Metrology.Proofs.Decimal.Shortest

/-!
# Printed doubles are read back

A finite double is printed as its sign and the shortest decimal in its interval. Any literal with
this sign and this value, however it is spelled, is read as the double (`toFloat_eq_self`), also for
the two zeros, which differ in their sign only.
-/
namespace Metrology.Decimal

variable {x : Float}

/-! ### The decimal of a number -/

/-- The decimal that is printed for the magnitude of a number. -/
def scaled (tie : Tie) (x : Float) : Scaled :=
  if (Magnitude.ofBits x.toBits).mantissa = 0 then ⟨0, 0⟩
  else (Magnitude.ofBits x.toBits).shortest tie

/-- A number has a minus sign. -/
def IsNegative (x : Float) : Prop := x.toBits ≥ 0x8000000000000000

instance (x : Float) : Decidable (IsNegative x) := inferInstanceAs (Decidable (_ ≥ _))

theorem isNegative_iff : IsNegative x ↔ 2 ^ 63 ≤ x.toBits.toNat := UInt64.le_iff_toNat_le

/-- A literal with the sign of a number and the value of the decimal that is printed for it is read
as the number. -/
theorem toFloat_eq_self (number : IsNumber x) {tie : Tie} {l : Literal}
    (sign : l.negative = decide (IsNegative x))
    (value : (l.digits : Rat) * 10 ^ l.exponent =
      (scaled tie x).digits * 10 ^ (scaled tie x).exponent) : l.toFloat = x := by
  have same : l.sign = signOf x.toBits := by
    unfold Literal.sign signOf
    rw [sign]
    exact if_congr (decide_eq_true_iff.trans isNegative_iff) rfl rfl
  unfold scaled at value
  split at value
  next none =>
    -- All literals for a zero have no other digits, whatever their exponent.
    have zero : l.digits = 0 := by
      have ten : (10 : Rat) ^ l.exponent ≠ 0 := by positivity
      simpa [ten] using value
    rw [eq_zero number none, ← same]
    simp only [Literal.toFloat, zero, decide_true, Bool.true_or, if_true, Literal.sign]
    split
    · decide +kernel
    · decide +kernel
  next some =>
    have proper := proper_ofBits number some
    have holds := Magnitude.holds_shortest tie proper
    rw [← value] at holds
    rw [toFloat_eq_double proper holds, same]
    exact (eq_double number some).symm

/-! ### Printing -/

/-- The text of a number is its decimal with its sign. -/
theorem Layout.text_of_isNumber (layout : Layout) (number : IsNumber x) :
    (layout.text x).toList =
      (if IsNegative x then ['-'] else []) ++ layout.scaledText (scaled layout.tie x) := by
  obtain ⟨notNaN, notInf⟩ := number.isNaN_eq
  simp only [Layout.text, notNaN, notInf, Bool.false_eq_true, if_false, String.toList_ofList]
  rfl

end Metrology.Decimal
