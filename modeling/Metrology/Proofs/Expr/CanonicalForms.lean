import Mathlib.Data.List.Count
import Mathlib.Data.List.Pairwise
import Metrology.Proofs.Composite.Atoms

/-!
# What canonical trees look like

A canonical tree is no unit, an atom, a product of several atoms in order, or a fraction of these
whose sides share no atom and whose denominator is there (`CanonicalShape`). Such a tree is given by
the atoms on its two sides, two ordered lists that share nothing (`fraction`). Counting the atoms
and writing them out again leads back to the same lists, as an ordered list is determined by how
often each atom occurs in it (`eq_of_mentions`).
-/
namespace Metrology

open Std

universe u

variable {α : Type u} [Ord α]

namespace Composite

/-! ### Lists of atoms in order -/

/-- No atom comes before a smaller one; atoms may be repeated. -/
def InOrder (as : List α) : Prop := as.Pairwise fun a b => compare a b ≠ .gt

instance : DecidablePred (InOrder : List α → Prop) := fun as =>
  inferInstanceAs (Decidable (as.Pairwise fun a b => compare a b ≠ .gt))

variable [TransOrd α]

/-- Entries with distinct atoms in order are written out in order. -/
theorem inOrder_occurrences {entries : List (α × Int)}
    (sorted : entries.Pairwise fun x y => compare x.1 y.1 = .lt) :
    InOrder (occurrences entries) := by
  induction entries with
  | nil => exact .nil
  | cons entry rest ih =>
    obtain ⟨before, sortedRest⟩ := List.pairwise_cons.mp sorted
    refine List.pairwise_append.mpr ⟨?repeated, ih sortedRest, ?later⟩
    case repeated => exact List.pairwise_replicate.mpr (.inr (by simp))
    case later =>
      intro a here b there
      obtain rfl := List.eq_of_mem_replicate here
      obtain ⟨n, -, member⟩ := mem_occurrences.mp there
      simp [before _ member]

theorem count_eq_sides (c : Composite α) (a : α) :
    c.count a = mentions a c.numerator - mentions a c.denominator := by
  have whole := total_above_add_total_below c a
  rw [mentions_numerator, mentions_denominator, count_eq_total]
  omega

variable [LawfulEqOrd α]

omit [TransOrd α] in
theorem mentions_eq_count [DecidableEq α] (a : α) (as : List α) : mentions a as = as.count a := by
  refine List.countP_congr fun b _ => ?_
  simp

/-- A list in order is determined by how often each atom occurs in it. -/
theorem eq_of_mentions {as bs : List α} (first : InOrder as) (second : InOrder bs)
    (same : ∀ a, mentions a as = mentions a bs) : as = bs := by
  classical
  have permuted : as.Perm bs := List.perm_iff_count.mpr fun a => by
    rw [← mentions_eq_count, ← mentions_eq_count, same]
  refine permuted.eq_of_pairwise (fun a b _ _ notAfter notBefore => ?_) first second
  -- Neither of two atoms comes after the other one only if they are equal.
  refine LawfulEqOrd.eq_of_compare ?_
  cases order : compare a b with
  | lt => exact absurd (OrientedCmp.gt_iff_lt.mpr order) notBefore
  | eq => rfl
  | gt => exact absurd order notAfter

/-! ### The two sides of a composite -/

omit [TransOrd α] in
theorem not_mentions {a : α} {as : List α} (absent : a ∉ as) : mentions a as = 0 := by
  classical
  rw [mentions_eq_count, List.count_eq_zero.mpr absent]

/-- Atoms that occur as often as one list mentions them less as often as the other one does stand on
the sides that the lists say, if these are in order and have no atom in common. -/
theorem sides_eq {c : Composite α} {above below : List α} (first : InOrder above)
    (second : InOrder below) (apart : ∀ a ∈ above, a ∉ below)
    (counts : ∀ a, c.count a = mentions a above - mentions a below) :
    c.numerator = above ∧ c.denominator = below := by
  have each : ∀ a, mentions a c.numerator = mentions a above ∧
      mentions a c.denominator = mentions a below := by
    intro a
    have difference := (count_eq_sides c a).symm.trans (counts a)
    -- On each side of the equation one of the two numbers is zero.
    have oneSide : mentions a c.numerator = 0 ∨ mentions a c.denominator = 0 := by
      by_cases positive : 0 < c.count a
      · refine .inr (not_mentions fun member => ?_)
        have negative := mem_denominator_iff.mp member
        omega
      · exact .inl (not_mentions fun member => positive (mem_numerator_iff.mp member))
    have oneList : mentions a above = 0 ∨ mentions a below = 0 := by
      by_cases member : a ∈ above
      · exact .inr (not_mentions (apart a member))
      · exact .inl (not_mentions member)
    omega
  exact ⟨eq_of_mentions (inOrder_occurrences (c.sorted.filter _)) first fun a => (each a).1,
    eq_of_mentions (inOrder_occurrences (c.sorted.filter _)) second fun a => (each a).2⟩

end Composite

namespace Expr

open Composite

/-! ### Canonical shapes -/

/-- An atom, or a product of several atoms in order. -/
inductive IsProduct : Expr α → Prop
  | atom (a : α) : IsProduct (.atom a)
  | mul {as : List α} (several : 2 ≤ as.length) (ordered : InOrder as) :
      IsProduct (.mul (as.map .atom))

/-- The trees that are written as simply as their units can be. -/
inductive CanonicalShape : Expr α → Prop
  | noUnit : CanonicalShape .noUnit
  | product {e : Expr α} (product : IsProduct e) : CanonicalShape e
  | reciprocal {den : Expr α} (below : IsProduct den) : CanonicalShape (.frac .noUnit den)
  | quotient {num den : Expr α} (above : IsProduct num) (below : IsProduct den)
      (apart : ∀ a ∈ num.atoms, a ∉ den.atoms) : CanonicalShape (.frac num den)

/-- The tree with the given atoms above and below the bar, which is left out when nothing stands
below it. -/
def fraction (above below : List α) : Expr α :=
  match below with
  | [] => ofAtoms above
  | below => .frac (ofAtoms above) (ofAtoms below)

theorem ofComposite_eq_fraction (c : Composite α) :
    ofComposite c = fraction c.numerator c.denominator := rfl

omit [Ord α] in
theorem fraction_of_ne_nil {above below : List α} (some : below ≠ []) :
    fraction above below = .frac (ofAtoms above) (ofAtoms below) := by
  cases below with
  | nil => exact absurd rfl some
  | cons => rfl

theorem isProduct_ofAtoms {as : List α} (some : as ≠ []) (ordered : InOrder as) :
    IsProduct (ofAtoms as) := by
  match as with
  | [] => exact absurd rfl some
  | [a] => exact .atom a
  | a :: b :: rest => exact .mul (by simp) ordered

theorem IsProduct.exists_atoms {e : Expr α} (product : IsProduct e) :
    ∃ as, as ≠ [] ∧ InOrder as ∧ e = ofAtoms as := by
  cases product with
  | atom a => exact ⟨[a], by simp, List.pairwise_singleton _ a, rfl⟩
  | @mul as several ordered =>
    match as with
    | [] => simp at several
    | [a] => simp at several
    | a :: b :: rest => exact ⟨_, by simp, ordered, rfl⟩

theorem canonicalShape_fraction {above below : List α} (first : InOrder above)
    (second : InOrder below) (apart : ∀ a ∈ above, a ∉ below) :
    CanonicalShape (fraction above below) := by
  by_cases noNumerator : above = []
  · subst noNumerator
    by_cases noDenominator : below = []
    · subst noDenominator
      exact .noUnit
    · rw [fraction_of_ne_nil noDenominator]
      exact .reciprocal (isProduct_ofAtoms noDenominator second)
  · have product := isProduct_ofAtoms noNumerator first
    by_cases noDenominator : below = []
    · subst noDenominator
      exact .product product
    · rw [fraction_of_ne_nil noDenominator]
      refine .quotient product (isProduct_ofAtoms noDenominator second) ?_
      rwa [atoms_ofAtoms, atoms_ofAtoms]

theorem CanonicalShape.exists_fraction {e : Expr α} (shape : CanonicalShape e) :
    ∃ above below, InOrder above ∧ InOrder below ∧ (∀ a ∈ above, a ∉ below) ∧
      e = fraction above below := by
  cases shape with
  | noUnit => exact ⟨[], [], .nil, .nil, nofun, rfl⟩
  | product product =>
    obtain ⟨as, -, ordered, rfl⟩ := product.exists_atoms
    exact ⟨as, [], ordered, .nil, fun _ _ => List.not_mem_nil, rfl⟩
  | reciprocal below =>
    obtain ⟨bs, some, ordered, rfl⟩ := below.exists_atoms
    have spelled : fraction [] bs = .frac .noUnit (ofAtoms bs) := fraction_of_ne_nil some
    exact ⟨[], bs, .nil, ordered, nofun, spelled.symm⟩
  | quotient above below apart =>
    obtain ⟨as, -, first, rfl⟩ := above.exists_atoms
    obtain ⟨bs, some, second, rfl⟩ := below.exists_atoms
    rw [atoms_ofAtoms, atoms_ofAtoms] at apart
    exact ⟨as, bs, first, second, apart, (fraction_of_ne_nil some).symm⟩

variable [TransOrd α]

theorem count_composite_fraction (above below : List α) (a : α) :
    (fraction above below).composite.count a = mentions a above - mentions a below := by
  cases below with
  | nil => simp [fraction, count_composite_ofAtoms, mentions]
  | cons b rest =>
    rw [fraction_of_ne_nil (by simp), count_composite_frac, count_composite_ofAtoms,
      count_composite_ofAtoms]

variable [LawfulEqOrd α]

/-- What is written out for a composite has the shape. -/
theorem canonicalShape_ofComposite (c : Composite α) : CanonicalShape (ofComposite c) := by
  rw [ofComposite_eq_fraction]
  refine canonicalShape_fraction (inOrder_occurrences (c.sorted.filter _))
    (inOrder_occurrences (c.sorted.filter _)) fun a above below => ?_
  have positive := mem_numerator_iff.mp above
  have negative := mem_denominator_iff.mp below
  omega

/-- A tree of the shape is what is written out for its composite. -/
theorem CanonicalShape.ofComposite_composite {e : Expr α} (shape : CanonicalShape e) :
    ofComposite e.composite = e := by
  obtain ⟨above, below, first, second, apart, rfl⟩ := shape.exists_fraction
  obtain ⟨numerator, denominator⟩ :=
    sides_eq first second apart (count_composite_fraction above below)
  rw [ofComposite_eq_fraction, numerator, denominator]

theorem canonicalShape_iff {e : Expr α} : CanonicalShape e ↔ ofComposite e.composite = e :=
  ⟨fun shape => shape.ofComposite_composite, fun same => same ▸ canonicalShape_ofComposite _⟩

variable [DecidableEq α]

theorem isCanonical_iff {e : Expr α} : e.isCanonical = true ↔ CanonicalShape e := by
  rw [canonicalShape_iff, isCanonical, beq_iff_eq, reduce]

instance : DecidablePred (CanonicalShape : Expr α → Prop) := fun _ =>
  decidable_of_iff _ isCanonical_iff

/-- The trees that reduction leaves as they are are those of canonical shape, and there is just one
of them for each composite. -/
theorem canonical_trees (e : Expr α) (c : Composite α) :
    (e.isCanonical = true ↔ CanonicalShape e) ∧
      (CanonicalShape e ↔ ofComposite e.composite = e) ∧
      CanonicalShape (ofComposite c) ∧ (ofComposite c).composite = c :=
  ⟨isCanonical_iff, canonicalShape_iff, canonicalShape_ofComposite c, composite_ofComposite c⟩

/-- A force is canonical with its atoms in order and not in another order. -/
theorem canonical_force :
    (frac (mul [atom "kg", atom "m"]) (mul [atom "s", atom "s"])).isCanonical = true ∧
      ¬ CanonicalShape (frac (mul [atom "m", atom "kg"]) (mul [atom "s", atom "s"])) := by
  have mass : IsProduct (mul [atom "kg", atom "m"]) :=
    @IsProduct.mul String _ ["kg", "m"] (by decide) (by decide)
  have time : IsProduct (mul [atom "s", atom "s"]) :=
    @IsProduct.mul String _ ["s", "s"] (by decide) (by decide)
  constructor
  · exact (canonical_trees _ 1).1.mpr (.quotient mass time (by decide))
  · exact fun shape => absurd ((canonical_trees _ 1).1.mpr shape) (by decide +kernel)

end Expr

end Metrology
