import Metrology.Composite.Basic

/-!
# Composites seen through their counts

`count` is a view of a composite as a function from atoms to whole numbers. The lemmas here say
what each operation does to it: counts of a product add up, those of a power are multiplied.
Two composites with the same counts are equal (`ext_count`), so that every law of a commutative
group comes down to a law of whole numbers.
-/
namespace Metrology.Composite

open Std

universe u

variable {α : Type u} [Ord α]

theorem isEmpty_eq_true_iff {c : Composite α} : c.isEmpty = true ↔ c = 1 := by
  constructor
  · intro none
    exact ext_entries (List.isEmpty_iff.mp none)
  · rintro rfl
    rfl

theorem single?_eq_some_iff {c : Composite α} {a : α} : c.single? = some a ↔ c = single a := by
  constructor
  · intro found
    unfold single? at found
    split at found
    next b entries =>
      obtain rfl := Option.some.inj found
      exact ext_entries entries
    · cases found
  · rintro rfl
    rfl

theorem reciprocal?_eq_some_iff {c : Composite α} {a : α} :
    c.reciprocal? = some a ↔ c = (single a)⁻¹ := by
  constructor
  · intro found
    unfold reciprocal? at found
    split at found
    next b entries =>
      obtain rfl := Option.some.inj found
      exact ext_entries entries
    · cases found
  · rintro rfl
    rfl

/-! ### Counting in a list of pairs -/

/-- The sum of all counts that a list of pairs has for an atom. -/
def total (a : α) : List (α × Int) → Int
  | [] => 0
  | (b, n) :: rest => (if compare b a = .eq then n else 0) + total a rest

@[simp] theorem total_nil (a : α) : total a [] = 0 := rfl

@[simp] theorem total_cons (a : α) (pair : α × Int) (rest : List (α × Int)) :
    total a (pair :: rest) = (if compare pair.1 a = .eq then pair.2 else 0) + total a rest := rfl

theorem total_append (a : α) (xs ys : List (α × Int)) :
    total a (xs ++ ys) = total a xs + total a ys := by
  induction xs with
  | nil => simp
  | cons pair xs ih => simp only [List.cons_append, total_cons, ih, Int.add_assoc]

theorem total_scaled (a : α) (n : Int) (pairs : List (α × Int)) :
    total a (pairs.map fun pair => (pair.1, pair.2 * n)) = total a pairs * n := by
  induction pairs with
  | nil => simp
  | cons pair rest ih =>
    simp only [List.map_cons, total_cons, ih, Int.add_mul]
    split <;> simp

/-- No pair for an atom adds nothing to its count. -/
theorem total_eq_zero {a : α} {pairs : List (α × Int)}
    (absent : ∀ pair ∈ pairs, compare pair.1 a ≠ .eq) : total a pairs = 0 := by
  induction pairs with
  | nil => rfl
  | cons pair rest ih =>
    simp only [total_cons, if_neg (absent pair (by simp))]
    simpa using ih fun other member => absent other (by simp [member])

variable [TransOrd α]

theorem total_addEntry (a b : α) (n : Int) (pairs : List (α × Int)) :
    total a (addEntry b n pairs) = (if compare b a = .eq then n else 0) + total a pairs := by
  induction pairs with
  | nil => simp only [addEntry]; split <;> simp_all
  | cons head rest ih =>
    obtain ⟨c, m⟩ := head
    simp only [addEntry]
    split
    · split <;> simp_all
    next same =>
      -- The counts of one atom are added in its entry, which is dropped if they cancel.
      have alike : compare b a = compare c a := TransCmp.congr_left same
      rw [alike]
      split <;> simp only [total_cons] <;> split <;> omega
    · simp only [total_cons, ih]; omega

/-- The entries after one of a sorted list mention other atoms. -/
theorem total_rest_eq_zero {head : α × Int} {rest : List (α × Int)} {a : α}
    (sorted : (head :: rest).Pairwise fun x y => compare x.1 y.1 = .lt)
    (least : compare head.1 a ≠ .lt) : total a rest = 0 := by
  refine total_eq_zero fun pair member same => least ?_
  have before := (List.pairwise_cons.mp sorted).1 pair member
  rwa [TransCmp.congr_right same] at before

theorem find_eq_total {pairs : List (α × Int)}
    (sorted : pairs.Pairwise fun x y => compare x.1 y.1 = .lt) (a : α) :
    (match pairs.find? fun pair => compare pair.1 a == .eq with
      | some pair => pair.2
      | none => 0) = total a pairs := by
  induction pairs with
  | nil => rfl
  | cons head rest ih =>
    by_cases same : compare head.1 a = .eq
    · -- The first entry that is found is the only one.
      simp [same, total_rest_eq_zero (a := a) sorted (by simp [same])]
    · rw [List.find?_cons_of_neg (by simpa using same), ih (List.pairwise_cons.mp sorted).2]
      simp [same]

/-- A composite has one entry for an atom at most, so that its count is the sum over all. -/
theorem count_eq_total (c : Composite α) (a : α) : c.count a = total a c.entries :=
  find_eq_total c.sorted a

/-! ### Counts of the operations -/

omit [TransOrd α] in
@[simp] theorem count_one (a : α) : (1 : Composite α).count a = 0 := rfl

theorem count_single (a b : α) : (single b).count a = if compare b a = .eq then 1 else 0 := by
  simp [count_eq_total]

@[simp] theorem count_add (c : Composite α) (b : α) (n : Int) (a : α) :
    (c.add b n).count a = (if compare b a = .eq then n else 0) + c.count a := by
  simp only [count_eq_total]
  exact total_addEntry a b n c.entries

theorem count_foldl_add (pairs : List (α × Int)) (c : Composite α) (a : α) :
    (pairs.foldl (fun sum pair => sum.add pair.1 pair.2) c).count a
      = c.count a + total a pairs := by
  induction pairs generalizing c with
  | nil => simp
  | cons pair rest ih => rw [List.foldl_cons, ih, count_add, total_cons]; omega

/-- Neither the order of the pairs nor their grouping matters. -/
@[simp] theorem count_ofList (pairs : List (α × Int)) (a : α) :
    (ofList pairs).count a = total a pairs := by
  simp [ofList, count_foldl_add]

@[simp] theorem count_mul (c d : Composite α) (a : α) : (c * d).count a = c.count a + d.count a := by
  change (Composite.mul c d).count a = _
  rw [Composite.mul, count_foldl_add, count_eq_total d]

@[simp] theorem count_zpow (c : Composite α) (n : Int) (a : α) :
    (c.zpow n).count a = c.count a * n := by
  by_cases isZero : n = 0
  · simp [zpow, isZero]
  · simp [count_eq_total, zpow, isZero, total_scaled]

omit [TransOrd α] in
theorem eq_zpow_of_boundedPowi? {c power : Composite α} {n : Int}
    (raised : c.boundedPowi? n = some power) : power = c.zpow n := by
  obtain ⟨computed, -⟩ := Option.filter_eq_some_iff.mp raised
  unfold powi? at computed
  split at computed
  · exact (Option.some.inj computed).symm
  · cases computed

@[simp] theorem count_inv (c : Composite α) (a : α) : c⁻¹.count a = -c.count a := by
  change (c.zpow (-1)).count a = _
  simp

@[simp] theorem count_div (c d : Composite α) (a : α) : (c / d).count a = c.count a - d.count a := by
  change (c * d⁻¹).count a = _
  simp [Int.sub_eq_add_neg]

/-! ### Equality -/

theorem entries_eq_of_total {xs ys : List (α × Int)} [LawfulEqOrd α]
    (sortedXs : xs.Pairwise fun x y => compare x.1 y.1 = .lt)
    (sortedYs : ys.Pairwise fun x y => compare x.1 y.1 = .lt)
    (nonzeroXs : ∀ entry ∈ xs, entry.2 ≠ 0) (nonzeroYs : ∀ entry ∈ ys, entry.2 ≠ 0)
    (same : ∀ a, total a xs = total a ys) : xs = ys := by
  induction xs generalizing ys with
  | nil =>
    cases ys with
    | nil => rfl
    | cons y ys =>
      -- The first atom of the longer list is counted there only.
      have counted := same y.1
      simp [total_rest_eq_zero sortedYs] at counted
      exact absurd counted.symm (nonzeroYs y (by simp))
  | cons x xs ih =>
    cases ys with
    | nil =>
      have counted := same x.1
      simp [total_rest_eq_zero sortedXs] at counted
      exact absurd counted (nonzeroXs x (by simp))
    | cons y ys =>
      -- The smaller of the two first atoms is missing from the other list, unless they are equal.
      have atX := same x.1
      have atY := same y.1
      match order : compare x.1 y.1 with
      | .lt =>
        have flipped : compare y.1 x.1 = .gt := OrientedCmp.gt_iff_lt.mpr order
        simp [total_rest_eq_zero sortedXs, total_rest_eq_zero (a := x.1) sortedYs (by simp [flipped]),
          flipped] at atX
        exact absurd atX (nonzeroXs x (by simp))
      | .gt =>
        simp [total_rest_eq_zero sortedYs, total_rest_eq_zero (a := y.1) sortedXs (by simp [order]),
          order] at atY
        exact absurd atY.symm (nonzeroYs y (by simp))
      | .eq =>
        have sameAtom : x.1 = y.1 := LawfulEqOrd.eq_of_compare order
        have sameCount : x.2 = y.2 := by
          simpa [total_rest_eq_zero sortedXs, order, sameAtom,
            total_rest_eq_zero (a := x.1) sortedYs (by simp [sameAtom]),
            total_rest_eq_zero sortedYs] using atX
        have sameHead : x = y := Prod.ext sameAtom sameCount
        subst sameHead
        rw [ih (List.pairwise_cons.mp sortedXs).2 (List.pairwise_cons.mp sortedYs).2
          (fun entry member => nonzeroXs entry (by simp [member]))
          (fun entry member => nonzeroYs entry (by simp [member]))]
        -- Equal heads contribute equally, so the tails count the same.
        intro a
        have counted := same a
        simp only [total_cons] at counted
        omega

theorem ext_count [LawfulEqOrd α] {c d : Composite α} (same : ∀ a, c.count a = d.count a) :
    c = d := by
  refine ext_entries (entries_eq_of_total c.sorted d.sorted c.nonzero d.nonzero fun a => ?_)
  rw [← count_eq_total, ← count_eq_total, same]

end Metrology.Composite
