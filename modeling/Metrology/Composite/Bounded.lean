import Metrology.Composite.Basic

/-!
# Composites with counts of 32 bits

The operations of `Composite` count without bounds, so that they obey the laws of a group. Machine
counts have 32 bits. A sum or a negation that does not fit is an error where overflow is checked, and
wraps around where it is not. The operations here are carried out in either arithmetic, one count
after the other: a product adds up all counts before it drops the zeros, and a quotient turns the
divisor over first.
-/
namespace Metrology

open Std

universe u

/-- What becomes of a count that does not fit in 32 bits: there is none, or it wraps around. -/
inductive Arithmetic where
  | checked
  | wrapping
  deriving DecidableEq, Repr

/-- The count that is stored in place of an exact one. -/
def Arithmetic.store? : Arithmetic → Int → Option Int
  | checked, n => if Composite.countFits n then some n else none
  | wrapping, n => some (n.bmod 4294967296)

/-! ### Counts in the making -/

/-- Counts in the order of their atoms, with zeros among them. -/
structure Tally (α : Type u) [Ord α] where
  entries : List (α × Int)
  sorted : entries.Pairwise fun x y => compare x.1 y.1 = .lt

namespace Tally

variable {α : Type u} [Ord α]

def count (t : Tally α) (a : α) : Int :=
  match t.entries.find? fun entry => compare entry.1 a == .eq with
  | some entry => entry.2
  | none => 0

/-- Store a count for an atom in a sorted list of entries, in place of the one it had. -/
def setEntry (a : α) (n : Int) : List (α × Int) → List (α × Int)
  | [] => [(a, n)]
  | (b, m) :: rest =>
    match compare a b with
    | .lt => (a, n) :: (b, m) :: rest
    | .eq => (b, n) :: rest
    | .gt => (b, m) :: setEntry a n rest

theorem forall_setEntry {P : α → Prop} {a : α} {n : Int} {entries : List (α × Int)} (here : P a)
    (all : ∀ entry ∈ entries, P entry.1) : ∀ entry ∈ setEntry a n entries, P entry.1 := by
  induction entries with
  | nil => simpa [setEntry] using here
  | cons head rest ih =>
    obtain ⟨first, later⟩ := List.forall_mem_cons.mp all
    simp only [setEntry]
    split
    · exact List.forall_mem_cons.mpr ⟨here, all⟩
    · exact List.forall_mem_cons.mpr ⟨first, later⟩
    · exact List.forall_mem_cons.mpr ⟨first, ih later⟩

variable [TransOrd α]

theorem sorted_setEntry {a : α} {n : Int} {entries : List (α × Int)}
    (sorted : entries.Pairwise fun x y => compare x.1 y.1 = .lt) :
    (setEntry a n entries).Pairwise fun x y => compare x.1 y.1 = .lt := by
  induction entries with
  | nil => simp [setEntry]
  | cons head rest ih =>
    obtain ⟨lower, sortedRest⟩ := List.pairwise_cons.mp sorted
    simp only [setEntry]
    split
    next before =>
      refine List.pairwise_cons.mpr ⟨List.forall_mem_cons.mpr ⟨before, ?_⟩, sorted⟩
      exact fun later member => TransCmp.lt_trans before (lower later member)
    next same => exact List.pairwise_cons.mpr ⟨lower, sortedRest⟩
    next after =>
      have above : compare head.1 a = .lt := OrientedCmp.gt_iff_lt.mp after
      exact List.pairwise_cons.mpr
        ⟨forall_setEntry (P := fun b => compare head.1 b = .lt) above lower, ih sortedRest⟩

def set (t : Tally α) (a : α) (n : Int) : Tally α :=
  ⟨setEntry a n t.entries, sorted_setEntry t.sorted⟩

/-- Add to the count of an atom, which is zero if there is none yet. -/
def add? (A : Arithmetic) (t : Tally α) (a : α) (n : Int) : Option (Tally α) :=
  (A.store? (t.count a + n)).map (t.set a)

end Tally

namespace Composite

variable {α : Type u} [Ord α]

/-- The entries with another count than zero. -/
def purge (entries : List (α × Int)) : List (α × Int) := entries.filter fun entry => entry.2 ≠ 0

omit [Ord α] in
theorem purge_cons (b : α) (m : Int) (rest : List (α × Int)) :
    purge ((b, m) :: rest) = if m = 0 then purge rest else (b, m) :: purge rest := by
  by_cases zero : m = 0 <;> simp [purge, zero]

/-- All counts fit. -/
def InRange (c : Composite α) : Prop := ∀ a, countFits (c.count a) = true

def tally (c : Composite α) : Tally α := ⟨c.entries, c.sorted⟩

def ofTally (t : Tally α) : Composite α :=
  ⟨purge t.entries, t.sorted.filter _, by simp [purge]⟩

/-! ### The group operations -/

variable [TransOrd α] (A : Arithmetic)

/-- Add counts to those of a composite, one after the other. -/
def addAll? (c : Composite α) (pairs : List (α × Int)) : Option (Composite α) :=
  (pairs.foldlM (fun (t : Tally α) pair => t.add? A pair.1 pair.2) c.tally).map ofTally

def mul? (c d : Composite α) : Option (Composite α) := c.addAll? A d.entries

/-- Every count negated, which brings up no zeros. -/
def inv? (c : Composite α) : Option (Composite α) :=
  addAll? A 1 (c.entries.map fun entry => (entry.1, -entry.2))

def div? (c d : Composite α) : Option (Composite α) := (d.inv? A).bind fun turned => c.mul? A turned

/-- Add up a list of atoms with counts, each of them a product with what has been added up. -/
def ofList? (pairs : List (α × Int)) : Option (Composite α) :=
  pairs.foldlM (fun c pair => c.addAll? A [pair]) 1

end Composite

end Metrology
