import Metrology.Scalar

/-!
# Affine transforms

Scales that differ by an offset, such as the temperature scales, are related by a transform
`value ↦ value · slope + offset` of values in the base units of the two scales.
-/
namespace Metrology

/-- A transform `value ↦ value · slope + offset`. -/
structure Affine (V : Type) where
  slope : V
  offset : V
  deriving Inhabited

namespace Affine

section Exact

variable {V W : Type} [Scalar V]

def identity : Affine V := ⟨Scalar.ofInt 1, Scalar.ofInt 0⟩

def shift (offset : V) : Affine V := ⟨Scalar.ofInt 1, offset⟩

def apply (t : Affine V) (value : V) : V := value * t.slope + t.offset

/-- The transform that undoes this one; it means something for an invertible transform only. -/
def inverse (t : Affine V) : Affine V := ⟨Scalar.ofInt 1 / t.slope, -t.offset / t.slope⟩

omit [Scalar V] in
def map (read : V → W) (t : Affine V) : Affine W := ⟨read t.slope, read t.offset⟩

end Exact

/-- Finite and with a slope other than zero, so that the inverse exists. -/
def isInvertible (t : Affine Float) : Bool :=
  t.slope.isFinite && t.offset.isFinite && t.slope != 0

/-- Transforms agree when their numbers are equal as numbers: a zero has no sign here. -/
instance : BEq (Affine Float) := ⟨fun s t => s.slope == t.slope && s.offset == t.offset⟩

end Affine

end Metrology
