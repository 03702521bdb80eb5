/-!
# Identifiers of scales and units

A registry numbers its scales and its units in the order of their declarations and marks the
numbers with its own tag, so that identifiers of different registries are never equal. The order
of identifiers is the order in which atoms appear in canonical forms: by registry, then by
declaration.
-/
namespace Metrology

open Std

inductive IdentKind where
  | scale | unit

structure Ident (kind : IdentKind) where
  registry : Nat
  index : Nat
  deriving DecidableEq

abbrev ScaleId := Ident .scale

abbrev UnitId := Ident .unit

namespace Ident

variable {kind : IdentKind}

instance : Ord (Ident kind) := ⟨compareLex (compareOn registry) (compareOn index)⟩

instance : TransOrd (Ident kind) := inferInstanceAs (TransCmp (compareLex _ _))

theorem eq_of_compare {i j : Ident kind} (same : compare i j = .eq) : i = j := by
  obtain ⟨r, n⟩ := i
  obtain ⟨s, m⟩ := j
  have both : compare r s = .eq ∧ compare n m = .eq := Ordering.then_eq_eq.mp same
  rw [Nat.compare_eq_eq.mp both.1, Nat.compare_eq_eq.mp both.2]

instance : LawfulEqOrd (Ident kind) := ⟨eq_of_compare⟩

/-- How an identifier without a known name is written. -/
def text (id : Ident kind) : String := "#" ++ toString id.index

end Ident

end Metrology
