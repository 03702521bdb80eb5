import Mathlib.Tactic.ByContra
import Metrology.Expr.Lemmas

/-!
# The atoms of composites and trees

An atom occurs in a composite when its count is not zero, which is to say that it has an entry.
`AllAtoms P` says that `P` holds of every atom that occurs; it survives all operations on
composites, because none of them brings in an atom that its operands do not have.
-/
namespace Metrology

open Std

universe u v

variable {α : Type u} [Ord α] [TransOrd α]

namespace Composite

/-! ### Entries and counts -/

section Entries

variable [LawfulEqOrd α]

theorem total_of_mem {entries : List (α × Int)} {a : α} {n : Int}
    (sorted : entries.Pairwise fun x y => compare x.1 y.1 = .lt) (member : (a, n) ∈ entries) :
    total a entries = n := by
  induction entries with
  | nil => cases member
  | cons head rest ih =>
    rcases List.mem_cons.mp member with rfl | later
    · -- No later entry has this atom.
      simp [total_rest_eq_zero sorted]
    · have before := (List.pairwise_cons.mp sorted).1 (a, n) later
      simpa [before] using ih (List.pairwise_cons.mp sorted).2 later

omit [TransOrd α] in
theorem mem_of_count {c : Composite α} {a : α} (occurs : c.count a ≠ 0) :
    (a, c.count a) ∈ c.entries := by
  unfold count at occurs ⊢
  split at occurs
  next entry found =>
    have same : entry.1 = a :=
      LawfulEqOrd.eq_of_compare (by simpa using List.find?_some found)
    rw [← same]
    exact List.mem_of_find?_eq_some found
  · exact absurd rfl occurs

theorem mem_entries_iff {c : Composite α} {a : α} {n : Int} :
    (a, n) ∈ c.entries ↔ n ≠ 0 ∧ c.count a = n := by
  constructor
  · intro member
    exact ⟨c.nonzero (a, n) member, (count_eq_total c a).trans (total_of_mem c.sorted member)⟩
  · rintro ⟨notZero, rfl⟩
    exact mem_of_count notZero

end Entries

/-! ### What holds of all atoms -/

/-- Every atom that occurs has a property. -/
def AllAtoms (P : α → Prop) (c : Composite α) : Prop := ∀ a, c.count a ≠ 0 → P a

variable {P Q : α → Prop} {c d : Composite α}

omit [TransOrd α] in
theorem AllAtoms.mono (all : c.AllAtoms P) (weaker : ∀ a, P a → Q a) : c.AllAtoms Q :=
  fun a occurs => weaker a (all a occurs)

omit [TransOrd α] in
theorem allAtoms_one : (1 : Composite α).AllAtoms P := fun _ occurs => absurd rfl occurs

theorem allAtoms_single [LawfulEqOrd α] {a : α} : (single a).AllAtoms P ↔ P a := by
  constructor
  · intro all
    exact all a (by simp [count_single])
  · intro holds b occurs
    have same : a = b := by
      by_contra differ
      exact occurs (by simp [count_single, differ])
    exact same ▸ holds

theorem AllAtoms.of_mem [LawfulEqOrd α] (all : c.AllAtoms P) {entry : α × Int}
    (member : entry ∈ c.entries) : P entry.1 := by
  obtain ⟨notZero, counted⟩ := mem_entries_iff.mp member
  exact all entry.1 (counted ▸ notZero)

theorem AllAtoms.mul (left : c.AllAtoms P) (right : d.AllAtoms P) : (c * d).AllAtoms P := by
  intro a occurs
  by_cases absent : c.count a = 0
  · exact right a fun none => occurs (by simp [absent, none])
  · exact left a absent

theorem AllAtoms.zpow (all : c.AllAtoms P) (n : Int) : (c.zpow n).AllAtoms P :=
  fun a occurs => all a fun none => occurs (by simp [none])

theorem AllAtoms.div (left : c.AllAtoms P) (right : d.AllAtoms P) : (c / d).AllAtoms P :=
  left.mul (right.zpow (-1))

theorem AllAtoms.substitute {β : Type u} [Ord β] {f : β → Composite α} {c : Composite β}
    (all : ∀ entry ∈ c.entries, (f entry.1).AllAtoms P) : (c.substitute f).AllAtoms P := by
  -- The induction is on the entries still to come, for any product so far.
  have folded : ∀ (entries : List (β × Int)) (product : Composite α), product.AllAtoms P →
      (∀ entry ∈ entries, (f entry.1).AllAtoms P) →
      (entries.foldl (fun product entry => product * (f entry.1).zpow entry.2) product).AllAtoms P := by
    intro entries
    induction entries with
    | nil => exact fun _ start _ => start
    | cons entry rest ih =>
      intro product start each
      exact ih _ (start.mul ((each entry (by simp)).zpow entry.2))
        fun other member => each other (by simp [member])
  exact folded c.entries 1 allAtoms_one all

theorem allAtoms_ofList [LawfulEqOrd α] {pairs : List (α × Int)} (all : ∀ pair ∈ pairs, P pair.1) :
    (ofList pairs).AllAtoms P := by
  intro a occurs
  rw [count_ofList] at occurs
  -- An atom without the property is in no pair, so that its total is zero.
  by_contra lacks
  refine occurs (total_eq_zero fun pair member same => lacks ?_)
  exact LawfulEqOrd.eq_of_compare same ▸ all pair member

/-! ### Numerator and denominator -/

omit [Ord α] [TransOrd α] in
theorem mem_occurrences {a : α} {entries : List (α × Int)} :
    a ∈ occurrences entries ↔ ∃ n, n ≠ 0 ∧ (a, n) ∈ entries := by
  simp only [occurrences, List.mem_flatMap, List.mem_replicate, Prod.exists]
  constructor
  · rintro ⟨b, n, member, notZero, rfl⟩
    exact ⟨n, by omega, member⟩
  · rintro ⟨n, notZero, member⟩
    exact ⟨a, n, member, by omega, rfl⟩

section Sides

variable [LawfulEqOrd α] {a : α}

theorem mem_numerator_iff : a ∈ c.numerator ↔ 0 < c.count a := by
  simp only [numerator, mem_occurrences, above, List.mem_filter, decide_eq_true_eq, mem_entries_iff]
  constructor
  · rintro ⟨n, notZero, ⟨-, rfl⟩, positive⟩
    exact positive
  · intro positive
    have notZero : c.count a ≠ 0 := by omega
    exact ⟨c.count a, notZero, ⟨notZero, rfl⟩, positive⟩

theorem mem_denominator_iff : a ∈ c.denominator ↔ c.count a < 0 := by
  simp only [denominator, mem_occurrences, below, List.mem_filter, decide_eq_true_eq,
    mem_entries_iff]
  constructor
  · rintro ⟨n, notZero, ⟨-, rfl⟩, negative⟩
    exact negative
  · intro negative
    have notZero : c.count a ≠ 0 := by omega
    exact ⟨c.count a, notZero, ⟨notZero, rfl⟩, negative⟩

end Sides

end Composite

namespace Expr

open Composite

/-! ### Atoms of trees -/

omit [Ord α] [TransOrd α] in
theorem mem_atoms_mul {terms : List (Expr α)} {a : α} :
    a ∈ (mul terms).atoms ↔ ∃ term ∈ terms, a ∈ term.atoms := by
  change a ∈ atomsOfTerms terms ↔ _
  induction terms with
  | nil => simp [atomsOfTerms]
  | cons term terms ih => simp [atomsOfTerms, ih]

omit [Ord α] [TransOrd α] in
/-- A reading depends on the atoms of the tree only. -/
theorem value_congr {G : Type v} [One G] [Mul G] [Div G] {f g : α → G} {e : Expr α}
    (same : ∀ a ∈ e.atoms, f a = g a) : e.value f = e.value g := by
  induction e using induct with
  | noUnit => rfl
  | atom a => exact same a (by simp [atoms])
  | mul terms ih =>
    change valueOfTerms f terms = valueOfTerms g terms
    have each : ∀ term ∈ terms, term.value f = term.value g := fun term member =>
      ih term member fun a inside => same a (mem_atoms_mul.mpr ⟨term, member, inside⟩)
    clear ih same
    induction terms with
    | nil => rfl
    | cons term terms later =>
      rw [valueOfTerms, valueOfTerms, each term (by simp),
        later fun other member => each other (by simp [member])]
  | frac num den above below =>
    have top := above fun a member => same a (by simp [atoms, member])
    have bottom := below fun a member => same a (by simp [atoms, member])
    rw [value, value, top, bottom]

omit [Ord α] [TransOrd α] in
/-- A reading mentions no more than the readings of the atoms do. -/
theorem allAtoms_value {β : Type u} [Ord β] [TransOrd β] {P : β → Prop} {f : α → Composite β}
    {e : Expr α} (all : ∀ a ∈ e.atoms, (f a).AllAtoms P) : (e.value f).AllAtoms P := by
  induction e using induct with
  | noUnit => exact allAtoms_one
  | atom a => exact all a (by simp [atoms])
  | mul terms ih =>
    change (valueOfTerms f terms).AllAtoms P
    induction terms with
    | nil => exact allAtoms_one
    | cons term terms later =>
      have first := ih term (by simp) fun a member => all a (mem_atoms_mul.mpr ⟨term, by simp, member⟩)
      refine first.mul (later (fun other member => ih other (by simp [member])) fun a member => ?_)
      obtain ⟨other, present, inside⟩ := mem_atoms_mul.mp member
      exact all a (mem_atoms_mul.mpr ⟨other, by simp [present], inside⟩)
  | frac num den above below =>
    exact (above fun a member => all a (by simp [atoms, member])).div
      (below fun a member => all a (by simp [atoms, member]))

/-- What holds of elementary atoms and of the atoms of definitions holds of an expanded tree. -/
theorem allAtoms_compositeWith [LawfulEqOrd α] {P : α → Prop} {expand : α → Option (Composite α)}
    {e : Expr α} (elementary : ∀ a ∈ e.atoms, expand a = none → P a)
    (derived : ∀ a ∈ e.atoms, ∀ definition, expand a = some definition → definition.AllAtoms P) :
    (e.compositeWith expand).AllAtoms P := by
  refine allAtoms_value fun a member => ?_
  cases expansion : expand a with
  | none => exact allAtoms_single.mpr (elementary a member expansion)
  | some definition => exact derived a member definition expansion

omit [Ord α] [TransOrd α] in
theorem atoms_ofAtoms (as : List α) : (ofAtoms as).atoms = as := by
  have flat : ∀ bs : List α, atomsOfTerms (bs.map atom) = bs := by
    intro bs
    induction bs with
    | nil => rfl
    | cons b bs ih => simp [atomsOfTerms, atoms, ih]
  match as with
  | [] => rfl
  | [a] => rfl
  | a :: b :: rest => exact flat (a :: b :: rest)

omit [TransOrd α] in
theorem atoms_ofComposite (c : Composite α) : (ofComposite c).atoms = c.numerator ++ c.denominator := by
  unfold ofComposite
  split
  next noDenominator => simp [noDenominator, atoms_ofAtoms]
  · simp [atoms, atoms_ofAtoms]

/-- The tree of a composite mentions just the atoms that occur. -/
theorem mem_atoms_ofComposite [LawfulEqOrd α] {c : Composite α} {a : α} :
    a ∈ (ofComposite c).atoms ↔ c.count a ≠ 0 := by
  rw [atoms_ofComposite, List.mem_append, mem_numerator_iff, mem_denominator_iff]
  omega

end Expr

end Metrology
