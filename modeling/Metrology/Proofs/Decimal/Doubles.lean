import Metrology.Decimal.Literal
import Metrology.Proofs.Decimal.Rounding

/-!
# Doubles and their magnitudes

The bits of a double are its sign, the digits of its exponent and those of its mantissa. They stand
for the magnitude that `Magnitude.ofBits` reads off them, so that a finite double other than zero is
determined by its sign and its magnitude (`eq_double`), and all arithmetic on doubles is arithmetic
on magnitudes. What is not finite is one of three values (`kind_cases`).
-/
namespace Metrology.Decimal

open Float.Model Float.Model.UnpackedFloat

variable {d : Magnitude} {sign : Sign}

/-! ### Digits of a double -/

/-- The number in the digits of an exponent. -/
def exponentField (bits : UInt64) : Nat := bits.toNat / 2 ^ 52 % 2048

def signOf (bits : UInt64) : Sign := if 2 ^ 63 ≤ bits.toNat then .negative else .positive

theorem toNat_unpackMantissa (bits : UInt64) :
    (@unpackMantissa Format.binary64 bits.toBitVec).toNat = bits.toNat % 2 ^ 52 := by
  rw [unpackMantissa_def, BitVec.extractLsb'_toNat, Nat.shiftRight_zero]
  rfl

theorem toNat_unpackExponent (bits : UInt64) :
    (@unpackExponent Format.binary64 bits.toBitVec).toNat = exponentField bits := by
  rw [unpackExponent_def, BitVec.extractLsb'_toNat, Nat.shiftRight_eq_div_pow]
  rfl

theorem toNat_unpackSign (bits : UInt64) :
    (@unpackSign Format.binary64 bits.toBitVec).toNat = bits.toNat / 2 ^ 63 := by
  have bound := bits.toNat_lt
  rw [unpackSign_def, BitVec.extractLsb'_toNat, Nat.shiftRight_eq_div_pow]
  change bits.toNat / 2 ^ 63 % 2 = _
  omega

theorem ofBitVec_unpackSign (bits : UInt64) :
    Sign.ofBitVec (@unpackSign Format.binary64 bits.toBitVec) = signOf bits := by
  have value := toNat_unpackSign bits
  have bound := bits.toNat_lt
  have isZero : @unpackSign Format.binary64 bits.toBitVec = 0#1 ↔ ¬ 2 ^ 63 ≤ bits.toNat := by
    rw [← BitVec.toNat_inj, value]
    change _ = 0 ↔ _
    omega
  rw [Sign.ofBitVec, signOf, if_congr isZero rfl rfl, ite_not]

/-- A normal number and its first digit, or a subnormal one. -/
theorem ofBits_eq (bits : UInt64) :
    Magnitude.ofBits bits =
      if exponentField bits = 0 then ⟨bits.toNat % 2 ^ 52, -1074, false⟩
      else ⟨2 ^ 52 + bits.toNat % 2 ^ 52, -1074 + (exponentField bits - 1 : Nat),
        bits.toNat % 2 ^ 52 = 0 && exponentField bits > 1⟩ := rfl

/-- The magnitude of a number that is finite and not zero. -/
theorem proper_ofBits {bits : UInt64} (finite : exponentField bits ≠ 2047)
    (some : (Magnitude.ofBits bits).mantissa ≠ 0) : (Magnitude.ofBits bits).Proper := by
  have field : exponentField bits < 2048 := Nat.mod_lt _ (by decide)
  have fraction : bits.toNat % 2 ^ 52 < 2 ^ 52 := Nat.mod_lt _ (by decide)
  rw [ofBits_eq] at some ⊢
  split at some
  next subnormal =>
    rw [if_pos subnormal]
    exact
      { positive := Nat.pos_of_ne_zero some
        digits := by simp only; omega
        lowest := by simp
        highest := by simp
        normal := by simp
        narrow := by simp }
  next normal =>
    rw [if_neg normal]
    exact
      { positive := by simp
        digits := by simp only; omega
        lowest := by simp
        highest := by simp only; omega
        normal := by simp
        narrow := by simp; omega }

theorem unpackExponent_ne {bits : UInt64} (finite : exponentField bits ≠ 2047) :
    @unpackExponent Format.binary64 bits.toBitVec ≠ -1#_ := by
  rw [ne_eq, ← BitVec.toNat_inj, toNat_unpackExponent]
  exact finite

theorem unpackExponent_eq_zero_iff (bits : UInt64) :
    @unpackExponent Format.binary64 bits.toBitVec = 0#11 ↔ exponentField bits = 0 := by
  rw [← BitVec.toNat_inj, toNat_unpackExponent]
  rfl

theorem unpackMantissa_eq_zero_iff (bits : UInt64) :
    @unpackMantissa Format.binary64 bits.toBitVec = 0#52 ↔ bits.toNat % 2 ^ 52 = 0 := by
  rw [← BitVec.toNat_inj, toNat_unpackMantissa]
  rfl

theorem finite_congr {m m' : Nat} {e e' : Int} {positive : 0 < m} {positive' : 0 < m'}
    (mantissa : m = m') (exponent : e = e') :
    UnpackedFloat.finite sign m e positive = .finite sign m' e' positive' := by
  subst mantissa exponent
  rfl

theorem unpack_eq_finite {bits : UInt64} (finite : exponentField bits ≠ 2047)
    (some : (Magnitude.ofBits bits).mantissa ≠ 0) :
    UnpackedFloat.unpack Format.binary64 bits.toBitVec =
      .finite (signOf bits) (Magnitude.ofBits bits).mantissa (Magnitude.ofBits bits).exponent
        (Nat.pos_of_ne_zero some) := by
  have fraction : bits.toNat % 2 ^ 52 < 2 ^ 52 := Nat.mod_lt _ (by decide)
  have same := ofBits_eq bits
  simp only [UnpackedFloat.unpack, if_neg (unpackExponent_ne finite), ofBitVec_unpackSign]
  by_cases subnormal : exponentField bits = 0
  · rw [if_pos subnormal] at same
    have fractional : bits.toNat % 2 ^ 52 ≠ 0 := by rwa [same] at some
    refine (if_pos ((unpackExponent_eq_zero_iff bits).mpr subnormal)).trans ?_
    refine (dif_neg (mt (unpackMantissa_eq_zero_iff bits).mp fractional)).trans (finite_congr ?_ ?_)
    · rw [same, toNat_unpackMantissa]
    · rw [same, toNat_unpackExponent, subnormal]
      rfl
  · rw [if_neg subnormal] at same
    refine (if_neg (mt (unpackExponent_eq_zero_iff bits).mp subnormal)).trans (finite_congr ?_ ?_)
    · rw [same, BitVec.toNat_append, toNat_unpackMantissa]
      change 1 <<< 52 ||| bits.toNat % 2 ^ 52 = 2 ^ 52 + bits.toNat % 2 ^ 52
      rw [Nat.shiftLeft_eq]
      exact (Nat.two_pow_add_eq_or_of_lt fraction 1).symm
    · rw [same, toNat_unpackExponent]
      change (exponentField bits : Int) - (1023 + 52) = -1074 + (exponentField bits - 1 : Nat)
      omega

theorem unpack_eq_zero {bits : UInt64} (finite : exponentField bits ≠ 2047)
    (none : (Magnitude.ofBits bits).mantissa = 0) :
    UnpackedFloat.unpack Format.binary64 bits.toBitVec = .zero (signOf bits) := by
  rw [ofBits_eq] at none
  split at none
  next subnormal =>
    simp only [UnpackedFloat.unpack, if_neg (unpackExponent_ne finite), ofBitVec_unpackSign]
    refine (if_pos ((unpackExponent_eq_zero_iff bits).mpr subnormal)).trans ?_
    exact dif_pos ((unpackMantissa_eq_zero_iff bits).mpr none)
  next normal =>
    simp at none

/-! ### The double of a magnitude -/

theorem unpack_subnormal {fraction : BitVec 52} {m : Nat} (positive : 0 < m)
    (value : fraction.toNat = m) :
    UnpackedFloat.unpack Format.binary64 (packComponents Format.binary64 sign 0#11 fraction) =
      .finite sign m (-1074) positive := by
  subst value
  have some : fraction ≠ 0#52 := by
    rintro rfl
    exact absurd positive (by decide)
  simp only [UnpackedFloat.unpack, unpackExponent_packComponents, unpackMantissa_packComponents,
    unpackSign_packComponents, Sign.ofBitVec_toBitVec]
  exact (if_neg (by decide)).trans
    ((if_pos trivial).trans ((dif_neg some).trans (finite_congr rfl rfl)))

theorem unpack_normal {field : BitVec 11} {fraction : BitVec 52} {m : Nat} {e : Int}
    (positive : 0 < m) (normal : field ≠ 0#11) (finite : field ≠ 2047#11)
    (mantissa : 2 ^ 52 + fraction.toNat = m) (exponent : (field.toNat : Int) - 1075 = e) :
    UnpackedFloat.unpack Format.binary64 (packComponents Format.binary64 sign field fraction) =
      .finite sign m e positive := by
  simp only [UnpackedFloat.unpack, unpackExponent_packComponents, unpackMantissa_packComponents,
    unpackSign_packComponents, Sign.ofBitVec_toBitVec]
  refine (if_neg finite).trans ((if_neg normal).trans (finite_congr ?_ exponent))
  rw [BitVec.toNat_append, ← mantissa]
  change 1 <<< 52 ||| fraction.toNat = _
  rw [Nat.shiftLeft_eq]
  exact (Nat.two_pow_add_eq_or_of_lt fraction.isLt 1).symm

/-- A double is unpacked into what it was packed from. -/
theorem unpack_pack (proper : d.Proper) (sign : Sign) :
    UnpackedFloat.unpack Format.binary64
        (UnpackedFloat.pack Format.binary64 (.finite sign d.mantissa d.exponent proper.positive)) =
      .finite sign d.mantissa d.exponent proper.positive := by
  have lowest := proper.lowest
  have highest := proper.highest
  have digits := proper.digits
  have normal := proper.normal
  have bias : (d.exponent + Format.binary64.exponentBias +
      Format.binary64.mantissaBitsWithoutImplicit).toNat = (d.exponent + 1075).toNat := by
    change (d.exponent + (1023 : Nat) + (52 : Nat)).toNat = _
    omega
  have small : ¬ 2 ^ Format.binary64.exponentBits ≤ (d.exponent + 1075).toNat + 1 := by
    change ¬ 2 ^ 11 ≤ _
    omega
  simp only [UnpackedFloat.pack, bias, if_neg small]
  by_cases first : 2 ^ 52 ≤ d.mantissa
  · -- The first digit of a normal number is not written, but its exponent tells that it is there.
    have log : d.mantissa.log2 = 52 := (Nat.log2_eq_iff proper.positive.ne').mpr ⟨first, digits⟩
    have field : (BitVec.ofNat 11 (d.exponent + 1075).toNat).toNat = (d.exponent + 1075).toNat := by
      rw [BitVec.toNat_ofNat, Nat.mod_eq_of_lt (by omega)]
    rw [log]
    refine (congrArg _ (if_pos rfl)).trans (unpack_normal _ ?_ ?_ ?_ ?_)
    · rw [ne_eq, ← BitVec.toNat_inj, field]
      change ¬ _ = 0
      omega
    · rw [ne_eq, ← BitVec.toNat_inj, field]
      change ¬ _ = 2047
      omega
    · rw [BitVec.toNat_ofNat]
      omega
    · rw [field]
      omega
  · have log : d.mantissa.log2 < 52 :=
      (Nat.log2_lt proper.positive.ne').mpr (Nat.lt_of_not_le first)
    have fewer : ¬ d.mantissa.log2 + 1 = Format.binary64.mantissaBits := by
      change ¬ _ = 53
      omega
    have least : d.exponent = -1074 := by
      by_contra other
      exact first (normal other)
    rw [if_neg fewer]
    refine (unpack_subnormal proper.positive ?_).trans (finite_congr rfl least.symm)
    rw [BitVec.toNat_ofNat]
    omega

/-- The double is a finite number. -/
def IsNumber (x : Float) : Prop := exponentField x.toBits ≠ 2047

/-- The double with a sign and a magnitude. -/
def Magnitude.Proper.double (proper : d.Proper) (sign : Sign) : Float :=
  .ofModel (.pack (.finite sign d.mantissa d.exponent proper.positive))

theorem unpack_double (proper : d.Proper) (sign : Sign) :
    (proper.double sign).toModel.unpack =
      .finite sign d.mantissa d.exponent proper.positive := unpack_pack proper sign

/-- A double is what it is unpacked into. -/
theorem ofModel_pack_unpack (x : Float) : .ofModel (.pack x.toModel.unpack) = x :=
  Float.ofBits_toBits x

theorem eq_of_unpack {x : Float} {f : UnpackedFloat} (unpacked : x.toModel.unpack = f) :
    x = .ofModel (.pack f) := by
  rw [← unpacked]
  exact (ofModel_pack_unpack x).symm

/-- A finite number other than zero is its sign and its magnitude. -/
theorem eq_double {x : Float} (number : IsNumber x)
    (some : (Magnitude.ofBits x.toBits).mantissa ≠ 0) :
    x = (proper_ofBits number some).double (signOf x.toBits) :=
  eq_of_unpack (unpack_eq_finite number some)

theorem eq_zero {x : Float} (number : IsNumber x)
    (none : (Magnitude.ofBits x.toBits).mantissa = 0) :
    x = .ofModel (.pack (.zero (signOf x.toBits))) := eq_of_unpack (unpack_eq_zero number none)

variable {d₁ d₂ : Magnitude} {s₁ s₂ : Sign}

theorem double_mul (proper : d.Proper) {proper₁ : d₁.Proper} {proper₂ : d₂.Proper}
    (digits : 2 ^ 53 ≤ d₁.mantissa * d₂.mantissa)
    (holds : d.interval.Holds (d₁.mantissa * 2 ^ d₁.exponent * (d₂.mantissa * 2 ^ d₂.exponent))) :
    proper₁.double s₁ * proper₂.double s₂ = proper.double (s₁ * s₂) := by
  have product : UnpackedFloat.mul Format.binary64
      (.finite s₁ d₁.mantissa d₁.exponent proper₁.positive)
      (.finite s₂ d₂.mantissa d₂.exponent proper₂.positive) = _ := mul_eq proper holds digits
  rw [← unpack_double proper₁ s₁, ← unpack_double proper₂ s₂] at product
  exact congrArg (fun f => Float.ofModel (.pack f)) product

theorem double_div (proper : d.Proper) {proper₁ : d₁.Proper} {proper₂ : d₂.Proper}
    (holds : d.interval.Holds (d₁.mantissa * 2 ^ d₁.exponent / (d₂.mantissa * 2 ^ d₂.exponent))) :
    proper₁.double s₁ / proper₂.double s₂ = proper.double (s₁ / s₂) := by
  have quotient : UnpackedFloat.div Format.binary64
      (.finite s₁ d₁.mantissa d₁.exponent proper₁.positive)
      (.finite s₂ d₂.mantissa d₂.exponent proper₂.positive) = _ := div_eq proper holds
  rw [← unpack_double proper₁ s₁, ← unpack_double proper₂ s₂] at quotient
  exact congrArg (fun f => Float.ofModel (.pack f)) quotient

theorem double_neg (proper : d.Proper) (sign : Sign) :
    -proper.double sign = proper.double (-sign) := by
  change Float.ofModel (.pack (UnpackedFloat.neg (proper.double sign).toModel.unpack)) = _
  rw [unpack_double]
  rfl

/-! ### Kinds of doubles -/

def nan : Float := .ofBits 0x7FF8000000000000

def infinity : Float := .ofBits 0x7FF0000000000000

def negativeInfinity : Float := .ofBits 0xFFF0000000000000

variable {x : Float}

/-- A double is a finite number, infinite or no number. -/
theorem kind_cases (x : Float) :
    IsNumber x ∨ x = nan ∨ x = infinity ∨ x = negativeInfinity := by
  by_cases number : exponentField x.toBits = 2047
  · -- The exponent has its largest value, and the mantissa tells infinity from no number.
    right
    have full : @unpackExponent Format.binary64 x.toBits.toBitVec = -1#_ := by
      rw [← BitVec.toNat_inj, toNat_unpackExponent]
      exact number
    have unpacked : x.toModel.unpack =
        if @unpackMantissa Format.binary64 x.toBits.toBitVec = 0#52 then .infinity (signOf x.toBits)
        else .notANumber := by
      rw [← ofBitVec_unpackSign]
      exact if_pos full
    split at unpacked
    · right
      cases sign : signOf x.toBits with
      | positive =>
        rw [sign] at unpacked
        exact .inl ((eq_of_unpack unpacked).trans (by decide +kernel))
      | negative =>
        rw [sign] at unpacked
        exact .inr ((eq_of_unpack unpacked).trans (by decide +kernel))
    · exact .inl ((eq_of_unpack unpacked).trans (by decide +kernel))
  · exact .inl number

theorem IsNumber.isNaN_eq (number : IsNumber x) : x.isNaN = false ∧ x.isInf = false := by
  by_cases none : (Magnitude.ofBits x.toBits).mantissa = 0
  · have unpacked : x.toModel.unpack = _ := unpack_eq_zero number none
    unfold Float.isNaN Float.isInf Float.Model.isNaN Float.Model.isInf
    rw [unpacked]
    exact ⟨rfl, rfl⟩
  · have unpacked : x.toModel.unpack = _ := unpack_eq_finite number none
    unfold Float.isNaN Float.isInf Float.Model.isNaN Float.Model.isInf
    rw [unpacked]
    exact ⟨rfl, rfl⟩

end Metrology.Decimal
