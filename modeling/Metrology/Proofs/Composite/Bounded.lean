import Mathlib.Algebra.BigOperators.Ring.List
import Mathlib.Data.Int.ModEq
import Metrology.Composite.Bounded
import Metrology.Proofs.Composite.Construction

/-!
# Counts of 32 bits against exact ones

A count that is stored fits, and it is the exact count up to a multiple of the period: of zero, if
overflow is checked, and of 2³² otherwise. The two say all about it (`Arithmetic.store?_eq_some_iff`),
and the same then holds of the operations on composites, whatever is added up on the way
(`mul?_eq_some_iff`, `inv?_eq_some_iff`, `div?_eq_some_iff`). So an operation that is checked gives the
exact result if it gives any, and one that wraps around is a homomorphism. A composite that has been
put together by any of them counts as the arithmetic says, up to the period
(`Construction.of_build?`).
-/
namespace Metrology

open Std Composite

universe u

variable {A : Arithmetic} {m n k : Int}

/-! ### Storing a count -/

namespace Arithmetic

/-- By how much stored counts may be off, as often as need be. -/
def period : Arithmetic → Int
  | checked => 0
  | wrapping => 4294967296

theorem modEq_checked : m ≡ n [ZMOD checked.period] ↔ m = n := by
  rw [Int.modEq_iff_dvd, period, zero_dvd_iff, Int.sub_eq_zero, eq_comm]

/-- There is one count that fits for each that is exact. -/
theorem eq_of_modEq (fits : countFits m = true) (alsoFits : countFits n = true)
    (alike : m ≡ n [ZMOD A.period]) : m = n := by
  cases A with
  | checked => exact modEq_checked.mp alike
  | wrapping =>
    simp only [countFits, Bool.and_eq_true, decide_eq_true_eq] at fits alsoFits
    rw [Int.modEq_iff_dvd, period] at alike
    omega

theorem store?_eq_some_iff :
    A.store? n = some k ↔ countFits k = true ∧ k ≡ n [ZMOD A.period] := by
  cases A with
  | checked =>
    rw [modEq_checked, store?, Option.ite_none_right_eq_some, Option.some.injEq]
    constructor
    · rintro ⟨fits, rfl⟩
      exact ⟨fits, rfl⟩
    · rintro ⟨fits, rfl⟩
      exact ⟨fits, rfl⟩
  | wrapping =>
    have fits : countFits (n.bmod 4294967296) = true := by
      have lower := Int.le_bmod (x := n) (m := 4294967296) (by decide)
      have upper := Int.bmod_lt (x := n) (m := 4294967296) (by decide)
      simp only [countFits, Bool.and_eq_true, decide_eq_true_eq]
      omega
    have alike : n.bmod 4294967296 ≡ n [ZMOD wrapping.period] := Int.bmod_emod
    rw [store?, Option.some.injEq]
    constructor
    · rintro rfl
      exact ⟨fits, alike⟩
    · rintro ⟨fitsToo, same⟩
      exact eq_of_modEq fits fitsToo (alike.trans same.symm)

end Arithmetic

/-! ### Counts in the making -/

variable {α : Type u} [Ord α] [TransOrd α]

namespace Tally

variable {a b : α} {entries : List (α × Int)}

theorem count_eq_total (t : Tally α) (a : α) : t.count a = total a t.entries :=
  find_eq_total t.sorted a

theorem total_setEntry (sorted : entries.Pairwise fun x y => compare x.1 y.1 = .lt) :
    total b (setEntry a n entries) = if compare a b = .eq then n else total b entries := by
  induction entries with
  | nil => simp [setEntry]
  | cons head rest ih =>
    have whole := sorted_setEntry (a := a) (n := n) sorted
    have later := ih (List.pairwise_cons.mp sorted).2
    simp only [setEntry] at whole ⊢
    split at whole
    next before =>
      by_cases same : compare a b = .eq
      · -- What stands behind the new entry is about larger atoms.
        rw [total_cons, total_rest_eq_zero whole (by simp [same]), if_pos same, Int.add_zero]
      · rw [total_cons, if_neg same, if_neg same, Int.zero_add]
    next here =>
      have alike : compare a b = compare head.1 b := TransCmp.congr_left here
      rw [total_cons, total_cons, alike]
      by_cases same : compare head.1 b = .eq
      · rw [if_pos same, if_pos same, total_rest_eq_zero sorted (by simp [same]), Int.add_zero]
      · rw [if_neg same, if_neg same, if_neg same]
    next after =>
      rw [total_cons, later, total_cons]
      by_cases same : compare a b = .eq
      · have differ : compare head.1 b ≠ .eq := by
          rw [← TransCmp.congr_right same, OrientedCmp.gt_iff_lt.mp after]
          simp
        rw [if_pos same, if_pos same, if_neg differ, Int.zero_add]
      · rw [if_neg same, if_neg same]

theorem count_set (t : Tally α) :
    (t.set a n).count b = if compare a b = .eq then n else t.count b := by
  rw [count_eq_total, count_eq_total]
  exact total_setEntry t.sorted

/-- All counts fit. -/
def InRange (t : Tally α) : Prop := ∀ a, countFits (t.count a) = true

/-! ### Adding up -/

variable [LawfulEqOrd α] {t sum : Tally α} {pairs : List (α × Int)}

omit [LawfulEqOrd α] in
theorem InRange.set (inRange : t.InRange) (fits : countFits k = true) : (t.set a k).InRange := by
  intro b
  rw [count_set]
  split
  · exact fits
  · exact inRange b

/-- Whatever has been added up fits, and is the exact sum up to the period. -/
theorem of_foldlM_add? (inRange : t.InRange)
    (added : pairs.foldlM (fun (t : Tally α) pair => t.add? A pair.1 pair.2) t = some sum) :
    sum.InRange ∧ ∀ a, sum.count a ≡ t.count a + total a pairs [ZMOD A.period] := by
  induction pairs generalizing t with
  | nil =>
    obtain rfl := Option.some.inj added
    exact ⟨inRange, fun a => by rw [total_nil, Int.add_zero]⟩
  | cons pair pairs ih =>
    obtain ⟨next, first, later⟩ := Option.bind_eq_some_iff.mp added
    obtain ⟨k, stored, rfl⟩ := Option.map_eq_some_iff.mp first
    obtain ⟨fits, alike⟩ := Arithmetic.store?_eq_some_iff.mp stored
    obtain ⟨sumInRange, sums⟩ := ih (inRange.set fits) later
    refine ⟨sumInRange, fun a => (sums a).trans ?_⟩
    rw [count_set, total_cons]
    split
    next same =>
      obtain rfl : pair.1 = a := LawfulEqOrd.eq_of_compare same
      rw [← Int.add_assoc]
      exact alike.add_right _
    · rw [Int.zero_add]

/-- If no atom comes up twice, then sums of counts that can be stored are all that is needed. -/
theorem exists_foldlM_add? (distinct : pairs.Pairwise fun x y => compare x.1 y.1 = .lt)
    (storable : ∀ a, ∃ k, A.store? (t.count a + total a pairs) = some k) :
    ∃ sum, pairs.foldlM (fun (t : Tally α) pair => t.add? A pair.1 pair.2) t = some sum := by
  induction pairs generalizing t with
  | nil => exact ⟨t, rfl⟩
  | cons pair pairs ih =>
    have nothingElse : total pair.1 pairs = 0 := total_rest_eq_zero distinct (by simp)
    obtain ⟨k, stored⟩ := storable pair.1
    rw [total_cons, nothingElse, if_pos ReflCmp.compare_self, Int.add_zero] at stored
    have first : t.add? A pair.1 pair.2 = some (t.set pair.1 k) := by
      rw [add?, stored, Option.map_some]
    obtain ⟨sum, later⟩ := ih (t := t.set pair.1 k) (List.pairwise_cons.mp distinct).2 fun a => by
      rw [count_set]
      split
      next same =>
        obtain rfl : pair.1 = a := LawfulEqOrd.eq_of_compare same
        have fits := (Arithmetic.store?_eq_some_iff.mp stored).1
        exact ⟨k, by rw [nothingElse, Int.add_zero, Arithmetic.store?_eq_some_iff]; exact ⟨fits, rfl⟩⟩
      next differ =>
        have sum := storable a
        rwa [total_cons, if_neg differ, Int.zero_add] at sum
    exact ⟨sum, by rw [List.foldlM_cons, first]; exact later⟩

end Tally

namespace Composite

variable [LawfulEqOrd α] {c d e f p : Composite α} {pairs : List (α × Int)}

/-! ### Composites in range -/

instance : Decidable c.InRange :=
  decidable_of_iff (∀ entry ∈ c.entries, countFits entry.2 = true)
    (forall_entries_iff (P := fun n => countFits n = true) (by decide))

omit [TransOrd α] [LawfulEqOrd α] in
theorem inRange_one : (1 : Composite α).InRange := fun _ => by rw [count_one]; decide

omit [LawfulEqOrd α] in
theorem inRange_single (a : α) : (single a).InRange := by
  intro b
  rw [count_single]
  split <;> decide

omit [TransOrd α] [LawfulEqOrd α] in
theorem total_purge (a : α) (entries : List (α × Int)) :
    total a (purge entries) = total a entries := by
  induction entries with
  | nil => rfl
  | cons entry rest ih =>
    rw [purge_cons]
    split
    next zero => rw [ih, total_cons, zero, ite_self, Int.zero_add]
    · rw [total_cons, total_cons, ih]

omit [LawfulEqOrd α] in
theorem count_ofTally (t : Tally α) (a : α) : (ofTally t).count a = t.count a := by
  rw [count_eq_total, Tally.count_eq_total]
  exact total_purge a t.entries

end Composite

/-! ### Counts up to the period -/

namespace Arithmetic

variable [LawfulEqOrd α] {c d e f : Composite α}

/-- The counts are the same up to the period. -/
def Agree (A : Arithmetic) (c d : Composite α) : Prop :=
  ∀ a, c.count a ≡ d.count a [ZMOD A.period]

theorem agree_checked : checked.Agree c d ↔ c = d := by
  simp only [Agree, modEq_checked]
  exact ⟨ext_count, fun same a => by rw [same]⟩

namespace Agree

omit [TransOrd α] [LawfulEqOrd α]

theorem refl (c : Composite α) : A.Agree c c := fun _ => Int.ModEq.refl _

theorem symm (agree : A.Agree c d) : A.Agree d c := fun a => (agree a).symm

theorem trans (first : A.Agree c d) (second : A.Agree d e) : A.Agree c e :=
  fun a => (first a).trans (second a)

variable [TransOrd α]

theorem mul (left : A.Agree c d) (right : A.Agree e f) : A.Agree (c * e) (d * f) := by
  intro a
  rw [count_mul, count_mul]
  exact (left a).add (right a)

theorem inv (agree : A.Agree c d) : A.Agree c⁻¹ d⁻¹ := by
  intro a
  rw [count_inv, count_inv]
  exact (agree a).neg

/-- Counts in range are determined by what they agree with. -/
theorem eq [LawfulEqOrd α] (agree : A.Agree c d) (inRange : c.InRange) (alsoInRange : d.InRange) :
    c = d :=
  ext_count fun a => eq_of_modEq (inRange a) (alsoInRange a) (agree a)

/-- What atoms stand for is counted by sums of multiples of their counts. -/
theorem eval {β : Type u} [Ord β] [TransOrd β] [LawfulEqOrd β] [LawfulEqOrd α] {x y : Composite β}
    (g : β → Composite α) (agree : A.Agree x y) :
    A.Agree (Composite.eval g x) (Composite.eval g y) := by
  intro a
  have difference : (Composite.eval g y).count a - (Composite.eval g x).count a =
      (Composite.eval g (y / x)).count a := by
    rw [map_div, count_div]
  rw [Int.modEq_iff_dvd, difference, count_eval]
  refine List.dvd_sum fun summand member => ?_
  obtain ⟨entry, present, rfl⟩ := List.mem_map.mp member
  refine Dvd.dvd.mul_right ?_ _
  have divides := Int.modEq_iff_dvd.mp (agree entry.1)
  rwa [← count_div, (mem_entries_iff.mp present).2] at divides

end Agree

end Arithmetic

/-! ### The group operations -/

namespace Composite

open Arithmetic

variable [LawfulEqOrd α] {c d p : Composite α} {pairs : List (α × Int)}

theorem of_addAll? (inRange : c.InRange) (added : c.addAll? A pairs = some p) :
    p.InRange ∧ ∀ a, p.count a ≡ c.count a + total a pairs [ZMOD A.period] := by
  obtain ⟨sum, folded, rfl⟩ := Option.map_eq_some_iff.mp added
  simp only [InRange, count_ofTally]
  exact Tally.of_foldlM_add? (t := c.tally) inRange folded

theorem exists_addAll? (distinct : pairs.Pairwise fun x y => compare x.1 y.1 = .lt)
    (storable : ∀ a, ∃ k, A.store? (c.count a + total a pairs) = some k) :
    ∃ p, c.addAll? A pairs = some p := by
  obtain ⟨sum, folded⟩ := Tally.exists_foldlM_add? (t := c.tally) distinct storable
  exact ⟨ofTally sum, Option.map_eq_some_iff.mpr ⟨sum, folded, rfl⟩⟩

/-- Pairs that are added one at a time come to their totals. -/
theorem of_foldlM_addAll? (inRange : c.InRange)
    (added : pairs.foldlM (fun c pair => addAll? A c [pair]) c = some p) :
    p.InRange ∧ ∀ a, p.count a ≡ c.count a + total a pairs [ZMOD A.period] := by
  induction pairs generalizing c with
  | nil =>
    obtain rfl := Option.some.inj added
    exact ⟨inRange, fun a => by rw [total_nil, Int.add_zero]⟩
  | cons pair pairs ih =>
    obtain ⟨next, first, later⟩ := Option.bind_eq_some_iff.mp added
    obtain ⟨nextInRange, one⟩ := of_addAll? inRange first
    obtain ⟨fits, others⟩ := ih nextInRange later
    refine ⟨fits, fun a => (others a).trans ?_⟩
    have whole : total a (pair :: pairs) = total a [pair] + total a pairs :=
      total_append a [pair] pairs
    rw [whole, ← Int.add_assoc]
    exact (one a).add_right _

theorem of_ofList? (listed : ofList? A pairs = some p) : p.InRange ∧ A.Agree p (ofList pairs) := by
  obtain ⟨fits, sums⟩ := of_foldlM_addAll? inRange_one listed
  refine ⟨fits, fun a => ?_⟩
  rw [count_ofList]
  simpa using sums a

/-- Counts of atoms that come up once are added if there are counts in range to agree with the sums,
and come to these. -/
theorem addAll?_eq_some_iff (distinct : pairs.Pairwise fun x y => compare x.1 y.1 = .lt)
    (inRange : c.InRange) :
    c.addAll? A pairs = some p ↔
      p.InRange ∧ ∀ a, p.count a ≡ c.count a + total a pairs [ZMOD A.period] := by
  constructor
  · exact of_addAll? inRange
  · rintro ⟨fits, sums⟩
    obtain ⟨q, added⟩ := exists_addAll? distinct fun a =>
      ⟨p.count a, store?_eq_some_iff.mpr ⟨fits a, sums a⟩⟩
    obtain ⟨fitsToo, same⟩ := of_addAll? inRange added
    have alike : A.Agree q p := fun a => (same a).trans (sums a).symm
    rw [added, alike.eq fitsToo fits]

theorem mul?_eq_some_iff (inRange : c.InRange) :
    c.mul? A d = some p ↔ p.InRange ∧ A.Agree p (c * d) := by
  rw [mul?, addAll?_eq_some_iff d.sorted inRange]
  simp only [Agree, count_mul, count_eq_total d]

theorem inv?_eq_some_iff : c.inv? A = some p ↔ p.InRange ∧ A.Agree p c⁻¹ := by
  have distinct : (c.entries.map fun entry => (entry.1, -entry.2)).Pairwise
      fun x y => compare x.1 y.1 = .lt := List.pairwise_map.mpr c.sorted
  have negated : ∀ a, total a (c.entries.map fun entry => (entry.1, -entry.2)) = c⁻¹.count a := by
    intro a
    have scaled := total_scaled a (-1) c.entries
    simp only [Int.mul_neg_one] at scaled
    rw [scaled, count_inv, count_eq_total]
  rw [inv?, addAll?_eq_some_iff distinct inRange_one]
  simp only [Agree, negated, count_one, Int.zero_add]

theorem div?_eq_some_iff (inRange : c.InRange) :
    c.div? A d = some p ↔ (∃ turned, d.inv? A = some turned) ∧ p.InRange ∧ A.Agree p (c / d) := by
  have divided : ∀ turned, d.inv? A = some turned → A.Agree (c * turned) (c / d) :=
    fun turned inverted => (Agree.refl c).mul (inv?_eq_some_iff.mp inverted).2
  rw [div?, Option.bind_eq_some_iff]
  constructor
  · rintro ⟨turned, inverted, multiplied⟩
    obtain ⟨fits, agree⟩ := (mul?_eq_some_iff inRange).mp multiplied
    exact ⟨⟨turned, inverted⟩, fits, agree.trans (divided turned inverted)⟩
  · rintro ⟨⟨turned, inverted⟩, fits, agree⟩
    exact ⟨turned, inverted, (mul?_eq_some_iff inRange).mpr
      ⟨fits, agree.trans (divided turned inverted).symm⟩⟩

theorem mul?_checked (inRange : c.InRange) :
    c.mul? .checked d = some p ↔ p = c * d ∧ p.InRange := by
  rw [mul?_eq_some_iff inRange, agree_checked, and_comm]

theorem inv?_checked : c.inv? .checked = some p ↔ p = c⁻¹ ∧ p.InRange := by
  rw [inv?_eq_some_iff, agree_checked, and_comm]

/-- A quotient needs the reciprocal of the divisor on the way. -/
theorem div?_checked (inRange : c.InRange) :
    c.div? .checked d = some p ↔ p = c / d ∧ p.InRange ∧ d⁻¹.InRange := by
  have turns : (∃ turned, d.inv? .checked = some turned) ↔ d⁻¹.InRange := by
    simp only [inv?_checked, exists_eq_left]
  rw [div?_eq_some_iff inRange, agree_checked, turns]
  tauto

theorem ofList?_checked (listed : ofList? .checked pairs = some p) :
    p = ofList pairs ∧ p.InRange := by
  obtain ⟨fits, agree⟩ := of_ofList? listed
  exact ⟨agree_checked.mp agree, fits⟩

/-! ### Counts that wrap around -/

namespace Construction

/-- Put a composite together with counts of 32 bits. -/
def build? (A : Arithmetic) : Construction α → Option (Composite α)
  | .empty => some 1
  | .atom a => some (single a)
  | .pairs entries => ofList? A entries
  | .product x y => do
    let c ← x.build? A
    let d ← y.build? A
    c.mul? A d
  | .quotient x y => do
    let c ← x.build? A
    let d ← y.build? A
    c.div? A d
  | .inverse x => do
    let c ← x.build? A
    c.inv? A
  | .power x n => do
    let c ← x.build? A
    c.powi? n

variable {x : Construction α}

/-- Whatever has been put together fits, and counts as the arithmetic says up to the period. -/
theorem of_build? (built : x.build? A = some p) :
    p.InRange ∧ ∀ a, p.count a ≡ x.count a [ZMOD A.period] := by
  induction x generalizing p with
  | empty =>
    obtain rfl := Option.some.inj built
    exact ⟨inRange_one, fun a => by rw [count_one]; rfl⟩
  | atom b =>
    obtain rfl := Option.some.inj built
    exact ⟨inRange_single b, fun a => by rw [count_single]; rfl⟩
  | pairs entries =>
    obtain ⟨fits, agrees⟩ := of_ofList? built
    exact ⟨fits, fun a => (agrees a).trans (by rw [count_ofList]; rfl)⟩
  | product x y left right =>
    obtain ⟨c, builtLeft, built⟩ := Option.bind_eq_some_iff.mp built
    obtain ⟨d, builtRight, multiplied⟩ := Option.bind_eq_some_iff.mp built
    obtain ⟨cFits, leftCounts⟩ := left builtLeft
    obtain ⟨-, rightCounts⟩ := right builtRight
    obtain ⟨fits, agrees⟩ := (mul?_eq_some_iff cFits).mp multiplied
    refine ⟨fits, fun a => (agrees a).trans ?_⟩
    rw [count_mul]
    exact (leftCounts a).add (rightCounts a)
  | quotient x y left right =>
    obtain ⟨c, builtLeft, built⟩ := Option.bind_eq_some_iff.mp built
    obtain ⟨d, builtRight, divided⟩ := Option.bind_eq_some_iff.mp built
    obtain ⟨cFits, leftCounts⟩ := left builtLeft
    obtain ⟨-, rightCounts⟩ := right builtRight
    obtain ⟨-, fits, agrees⟩ := (div?_eq_some_iff cFits).mp divided
    refine ⟨fits, fun a => (agrees a).trans ?_⟩
    rw [count_div]
    exact (leftCounts a).sub (rightCounts a)
  | inverse x ih =>
    obtain ⟨c, builtBase, inverted⟩ := Option.bind_eq_some_iff.mp built
    obtain ⟨-, counts⟩ := ih builtBase
    obtain ⟨fits, agrees⟩ := inv?_eq_some_iff.mp inverted
    refine ⟨fits, fun a => (agrees a).trans ?_⟩
    rw [count_inv]
    exact (counts a).neg
  | power x n ih =>
    obtain ⟨c, builtBase, raised⟩ := Option.bind_eq_some_iff.mp built
    obtain ⟨-, counts⟩ := ih builtBase
    obtain ⟨rfl, fits⟩ := powi?_eq_some_iff.mp raised
    refine ⟨fun a => ?_, fun a => ?_⟩
    · rw [count_zpow]
      exact fits a
    · rw [count_zpow]
      exact (counts a).mul_right n

/-- What has been put together without an overflow is what is put together exactly. -/
theorem build_of_build?_checked (built : x.build? .checked = some p) : x.build = some p := by
  induction x generalizing p with
  | empty | atom b => exact built
  | pairs entries => exact congrArg some (ofList?_checked built).1.symm
  | product x y left right =>
    obtain ⟨c, builtLeft, built⟩ := Option.bind_eq_some_iff.mp built
    obtain ⟨d, builtRight, multiplied⟩ := Option.bind_eq_some_iff.mp built
    obtain ⟨rfl, -⟩ := (mul?_checked (of_build? builtLeft).1).mp multiplied
    rw [build, left builtLeft, right builtRight, Option.map₂_some_some]
  | quotient x y left right =>
    obtain ⟨c, builtLeft, built⟩ := Option.bind_eq_some_iff.mp built
    obtain ⟨d, builtRight, divided⟩ := Option.bind_eq_some_iff.mp built
    obtain ⟨rfl, -⟩ := (div?_checked (of_build? builtLeft).1).mp divided
    rw [build, left builtLeft, right builtRight, Option.map₂_some_some]
  | inverse x ih =>
    obtain ⟨c, builtBase, inverted⟩ := Option.bind_eq_some_iff.mp built
    obtain ⟨rfl, -⟩ := inv?_checked.mp inverted
    rw [build, ih builtBase, Option.map_some]
  | power x n ih =>
    obtain ⟨c, builtBase, raised⟩ := Option.bind_eq_some_iff.mp built
    rw [build, ih builtBase, Option.bind_some]
    exact raised

end Construction

end Composite

end Metrology
