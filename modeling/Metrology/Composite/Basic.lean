/-!
# Composites: signed counts of atoms

A composite is an element of the free abelian group over an ordered type of atoms, written
multiplicatively: each atom that occurs carries a count other than zero, positive for the
numerator and negative for the denominator. The entries stand in the order of their atoms and
zero counts are dropped, so that two composites with the same counts are the same value.

`addEntry`, which changes the count of one atom, is the only operation that has to keep the
entries in order. The group operations are built from it and from scaling all counts at once.
Counts are whole numbers of any size; `Composite.Bounded` has the operations with counts of 32 bits.
-/
namespace Metrology

open Std

universe u

/-- Atoms with the counts they carry, in strictly increasing order of the atoms. -/
structure Composite (α : Type u) [Ord α] where
  entries : List (α × Int)
  sorted : entries.Pairwise fun x y => compare x.1 y.1 = .lt
  nonzero : ∀ entry ∈ entries, entry.2 ≠ 0

namespace Composite

variable {α : Type u} [Ord α]

theorem ext_entries : {c d : Composite α} → c.entries = d.entries → c = d
  | ⟨_, _, _⟩, ⟨_, _, _⟩, rfl => rfl

instance [DecidableEq α] : DecidableEq (Composite α) := fun c d =>
  decidable_of_iff (c.entries = d.entries) ⟨ext_entries, congrArg entries⟩

def empty : Composite α := ⟨[], .nil, by simp⟩

instance : One (Composite α) := ⟨empty⟩

instance : Inhabited (Composite α) := ⟨1⟩

@[simp] theorem entries_one : (1 : Composite α).entries = [] := rfl

def single (a : α) : Composite α := ⟨[(a, 1)], by simp, by simp⟩

@[simp] theorem entries_single (a : α) : (single a).entries = [(a, 1)] := rfl

def isEmpty (c : Composite α) : Bool := c.entries.isEmpty

/-- The signed number of occurrences of an atom. -/
def count (c : Composite α) (a : α) : Int :=
  match c.entries.find? fun entry => compare entry.1 a == .eq with
  | some entry => entry.2
  | none => 0

/-! ### Numerator and denominator -/

def above (c : Composite α) : List (α × Int) := c.entries.filter fun entry => 0 < entry.2

def below (c : Composite α) : List (α × Int) := c.entries.filter fun entry => entry.2 < 0

/-- The entries in the order in which they are written: numerator first. -/
def written (c : Composite α) : List (α × Int) := c.above ++ c.below

/-- Each atom as often as it is counted. -/
def occurrences (entries : List (α × Int)) : List α :=
  entries.flatMap fun entry => List.replicate entry.2.natAbs entry.1

def numerator (c : Composite α) : List α := occurrences c.above

def denominator (c : Composite α) : List α := occurrences c.below

def maxPower (c : Composite α) : Nat :=
  c.entries.foldl (fun largest entry => max largest entry.2.natAbs) 0

/-- The atom of a composite that consists of one atom, once. -/
def single? (c : Composite α) : Option α :=
  match c.entries with
  | [(a, 1)] => some a
  | _ => none

/-- The atom of a composite that consists of the reciprocal of one atom. -/
def reciprocal? (c : Composite α) : Option α :=
  match c.entries with
  | [(a, -1)] => some a
  | _ => none

/-! ### Scaling all counts -/

private theorem sorted_scaled {entries : List (α × Int)} (n : Int)
    (sorted : entries.Pairwise fun x y => compare x.1 y.1 = .lt) :
    (entries.map fun entry => (entry.1, entry.2 * n)).Pairwise
      fun x y => compare x.1 y.1 = .lt :=
  List.pairwise_map.mpr sorted

omit [Ord α] in
private theorem nonzero_scaled {entries : List (α × Int)} {n : Int} (notZero : n ≠ 0)
    (nonzero : ∀ entry ∈ entries, entry.2 ≠ 0) :
    ∀ entry ∈ entries.map fun entry => (entry.1, entry.2 * n), entry.2 ≠ 0 := by
  intro entry member
  obtain ⟨old, present, rfl⟩ := List.mem_map.mp member
  exact Int.mul_ne_zero (nonzero old present) notZero

def zpow (c : Composite α) (n : Int) : Composite α :=
  if notZero : n = 0 then 1
  else ⟨c.entries.map fun entry => (entry.1, entry.2 * n),
    sorted_scaled n c.sorted, nonzero_scaled notZero c.nonzero⟩

/-- Every count negated: numerator and denominator change places. -/
protected def inv (c : Composite α) : Composite α := c.zpow (-1)

instance : Inv (Composite α) := ⟨Composite.inv⟩

/-- Counts fit in 32 bits, two's complement. -/
def countFits (n : Int) : Bool := -2147483648 ≤ n && n ≤ 2147483647

/-- Every count times `n`, unless one of the products is too large for a count. -/
def powi? (c : Composite α) (n : Int) : Option (Composite α) :=
  if c.entries.all fun entry => countFits (entry.2 * n) then some (c.zpow n) else none

/-- The largest magnitude that the exponents of a power may reach: canonical texts and trees grow
with their exponents. -/
def exponentLimit : Nat := 1000

def boundedPowi? (c : Composite α) (n : Int) : Option (Composite α) :=
  (c.powi? n).filter fun power => power.maxPower ≤ exponentLimit

/-! ### Changing one count -/

/-- Add `n` to the count of `a` in a sorted list of entries, dropping the entry if it becomes
zero. -/
def addEntry (a : α) (n : Int) : List (α × Int) → List (α × Int)
  | [] => if n = 0 then [] else [(a, n)]
  | (b, m) :: rest =>
    match compare a b with
    | .lt => if n = 0 then (b, m) :: rest else (a, n) :: (b, m) :: rest
    | .eq => if m + n = 0 then rest else (b, m + n) :: rest
    | .gt => (b, m) :: addEntry a n rest

/-- An atom of the changed list is the one that was changed or one that was there before. -/
theorem fst_mem_addEntry {a : α} {n : Int} {entries : List (α × Int)} {entry : α × Int}
    (member : entry ∈ addEntry a n entries) :
    entry.1 = a ∨ ∃ old ∈ entries, entry.1 = old.1 := by
  induction entries with
  | nil =>
    simp only [addEntry] at member
    split at member <;> simp_all
  | cons head rest ih =>
    obtain ⟨b, m⟩ := head
    simp only [addEntry] at member
    split at member
    · split at member <;> grind
    · split at member
      · exact .inr ⟨entry, by simp [member], rfl⟩
      · rcases List.mem_cons.mp member with rfl | later
        · exact .inr ⟨(b, m), by simp, rfl⟩
        · exact .inr ⟨entry, by simp [later], rfl⟩
    · rcases List.mem_cons.mp member with rfl | later
      · exact .inr ⟨(b, m), by simp, rfl⟩
      · rcases ih later with same | ⟨old, present, same⟩
        · exact .inl same
        · exact .inr ⟨old, by simp [present], same⟩

theorem nonzero_addEntry (a : α) (n : Int) {entries : List (α × Int)}
    (nonzero : ∀ entry ∈ entries, entry.2 ≠ 0) :
    ∀ entry ∈ addEntry a n entries, entry.2 ≠ 0 := by
  induction entries with
  | nil =>
    intro entry member
    simp only [addEntry] at member
    split at member <;> simp_all
  | cons head rest ih =>
    obtain ⟨b, m⟩ := head
    intro entry member
    have deeper := ih fun entry present => nonzero entry (by simp [present])
    have first := nonzero (b, m) (by simp)
    simp only [addEntry] at member
    split at member <;> (try split at member) <;> grind

variable [TransOrd α]

theorem sorted_addEntry (a : α) (n : Int) {entries : List (α × Int)}
    (sorted : entries.Pairwise fun x y => compare x.1 y.1 = .lt) :
    (addEntry a n entries).Pairwise fun x y => compare x.1 y.1 = .lt := by
  induction entries with
  | nil =>
    simp only [addEntry]
    split <;> simp
  | cons head rest ih =>
    obtain ⟨b, m⟩ := head
    obtain ⟨lower, sortedRest⟩ := List.pairwise_cons.mp sorted
    simp only [addEntry]
    split
    next before =>
      split
      · exact sorted
      · refine List.pairwise_cons.mpr ⟨fun later member => ?_, sorted⟩
        rcases List.mem_cons.mp member with rfl | deeper
        · exact before
        · exact TransCmp.lt_trans before (lower later deeper)
    next same =>
      split
      · exact sortedRest
      · exact List.pairwise_cons.mpr ⟨lower, sortedRest⟩
    next after =>
      refine List.pairwise_cons.mpr ⟨fun later member => ?_, ih sortedRest⟩
      rcases fst_mem_addEntry member with same | ⟨old, present, same⟩
      · rw [same]; exact OrientedCmp.gt_iff_lt.mp after
      · rw [same]; exact lower old present

def add (c : Composite α) (a : α) (n : Int) : Composite α :=
  ⟨addEntry a n c.entries, sorted_addEntry a n c.sorted, nonzero_addEntry a n c.nonzero⟩

/-- Add up a list of atoms with counts; atoms may repeat and counts may be zero. -/
def ofList (pairs : List (α × Int)) : Composite α :=
  pairs.foldl (fun c pair => c.add pair.1 pair.2) 1

/-! ### The group operations -/

protected def mul (c d : Composite α) : Composite α :=
  d.entries.foldl (fun sum entry => sum.add entry.1 entry.2) c

instance : Mul (Composite α) := ⟨Composite.mul⟩

instance : Div (Composite α) := ⟨fun c d => c * d⁻¹⟩

/-- Replace every atom by a composite, as often as the atom occurs. -/
def substitute {β : Type u} [Ord β] (c : Composite β) (f : β → Composite α) : Composite α :=
  c.entries.foldl (fun product entry => product * (f entry.1).zpow entry.2) 1

end Composite

end Metrology
