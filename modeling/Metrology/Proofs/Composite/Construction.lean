import Mathlib.Data.Option.NAry
import Metrology.Composite.Bounded
import Metrology.Proofs.Composite.Powers
import Metrology.Proofs.Expr.Equality

/-!
# Composites count exactly

Composites are put together by a few operations, each of which can be mirrored by arithmetic on the
counts of one atom at a time (`Construction.count`). Whatever is put together stores just the counts
other than zero that this arithmetic comes to, and only a power can fail, if a count does not fit
(`Construction.build_eq_some_iff`). When zeros are dropped makes no difference (`entries_foldl_add`).
Composites are the free commutative group over the atoms therefore: counts decide equality, and any
reading of the atoms extends in one way.
-/
namespace Metrology.Composite

open Std

universe u v

variable {α : Type u}

/-- How a composite is put together. -/
inductive Construction (α : Type u) where
  | empty
  | atom (a : α)
  | pairs (entries : List (α × Int))
  | product (x y : Construction α)
  | quotient (x y : Construction α)
  | inverse (x : Construction α)
  | power (x : Construction α) (n : Int)

variable [Ord α]

namespace Construction

/-- How often an atom is counted, by arithmetic on whole numbers. -/
def count (a : α) : Construction α → Int
  | empty => 0
  | atom b => if compare b a = .eq then 1 else 0
  | pairs entries => total a entries
  | product x y => x.count a + y.count a
  | quotient x y => x.count a - y.count a
  | inverse x => -x.count a
  | power x n => x.count a * n

/-- The counts of all powers fit. -/
def Fits : Construction α → Prop
  | empty | atom _ | pairs _ => True
  | product x y | quotient x y => x.Fits ∧ y.Fits
  | inverse x => x.Fits
  | power x n => x.Fits ∧ ∀ a, countFits (x.count a * n) = true

variable [TransOrd α]

/-- Put the composite together, unless a power is missing. -/
def build : Construction α → Option (Composite α)
  | empty => some 1
  | atom a => some (single a)
  | pairs entries => some (ofList entries)
  | product x y => Option.map₂ (· * ·) x.build y.build
  | quotient x y => Option.map₂ (· / ·) x.build y.build
  | inverse x => x.build.map (·⁻¹)
  | power x n => x.build.bind (·.powi? n)

end Construction

variable [TransOrd α] [LawfulEqOrd α] {c d power : Composite α} {n : Int}

/-! ### Counts -/

theorem ext_count_iff : c = d ↔ ∀ a, c.count a = d.count a :=
  ⟨fun same a => by rw [same], ext_count⟩

/-- To have certain counts is to store those of them that are not zero. -/
theorem forall_count_iff {f : α → Int} :
    (∀ a, c.count a = f a) ↔ ∀ a n, (a, n) ∈ c.entries ↔ n ≠ 0 ∧ f a = n := by
  constructor
  · intro counts a n
    rw [mem_entries_iff, counts]
  · intro stored a
    by_cases absent : c.count a = 0
    · by_contra differ
      -- The count would be stored if it were not zero.
      have member := (stored a (f a)).mpr ⟨fun none => differ (absent.trans none.symm), rfl⟩
      exact differ (mem_entries_iff.mp member).2
    · exact ((stored a (c.count a)).mp (mem_of_count absent)).2.symm

/-! ### Powers -/

theorem powi?_eq_some_iff :
    c.powi? n = some power ↔ power = c.zpow n ∧ ∀ a, countFits (c.count a * n) = true := by
  have zero : countFits (0 * n) = true := by simp [countFits]
  rw [← forall_entries_iff (P := fun m => countFits (m * n) = true) zero, ← List.all_eq_true, powi?]
  split
  next fits => simp [fits, eq_comm]
  next unfit => simp [unfit]

theorem powi?_eq_none_iff :
    c.powi? n = none ↔ n ≠ 0 ∧ ∃ a, countFits (c.count a * n) = false := by
  have missing : c.powi? n = none ↔ ∃ a, countFits (c.count a * n) = false := by
    rw [Option.eq_none_iff_forall_ne_some]
    simp only [ne_eq, powi?_eq_some_iff, not_and, forall_eq, not_forall, Bool.not_eq_true]
  rw [missing, iff_and_self]
  rintro ⟨a, unfit⟩ rfl
  simp [countFits] at unfit

/-! ### Constructions -/

namespace Construction

variable {x : Construction α}

/-- What has been put together counts as the arithmetic says. -/
theorem of_build (built : x.build = some c) : x.Fits ∧ ∀ a, c.count a = x.count a := by
  induction x generalizing c with
  | empty =>
    obtain rfl := Option.some.inj built
    exact ⟨trivial, count_one⟩
  | atom b =>
    obtain rfl := Option.some.inj built
    exact ⟨trivial, fun a => count_single a b⟩
  | pairs entries =>
    obtain rfl := Option.some.inj built
    exact ⟨trivial, count_ofList entries⟩
  | product x y left right =>
    obtain ⟨e, f, builtLeft, builtRight, rfl⟩ := Option.map₂_eq_some_iff.mp built
    obtain ⟨fitsLeft, countsLeft⟩ := left builtLeft
    obtain ⟨fitsRight, countsRight⟩ := right builtRight
    exact ⟨⟨fitsLeft, fitsRight⟩, fun a => by rw [count_mul, countsLeft, countsRight, count]⟩
  | quotient x y left right =>
    obtain ⟨e, f, builtLeft, builtRight, rfl⟩ := Option.map₂_eq_some_iff.mp built
    obtain ⟨fitsLeft, countsLeft⟩ := left builtLeft
    obtain ⟨fitsRight, countsRight⟩ := right builtRight
    exact ⟨⟨fitsLeft, fitsRight⟩, fun a => by rw [count_div, countsLeft, countsRight, count]⟩
  | inverse x ih =>
    obtain ⟨e, builtBase, rfl⟩ := Option.map_eq_some_iff.mp built
    obtain ⟨fits, counts⟩ := ih builtBase
    exact ⟨fits, fun a => by rw [count_inv, counts, count]⟩
  | power x n ih =>
    obtain ⟨e, builtBase, raised⟩ := Option.bind_eq_some_iff.mp built
    -- A power is the one part that there may not be, and it tells that its counts fit.
    obtain ⟨rfl, fitsPower⟩ := powi?_eq_some_iff.mp raised
    obtain ⟨fits, counts⟩ := ih builtBase
    exact ⟨⟨fits, fun a => counts a ▸ fitsPower a⟩, fun a => by rw [count_zpow, counts, count]⟩

theorem exists_build (fits : x.Fits) : ∃ c, x.build = some c := by
  induction x with
  | empty => exact ⟨1, rfl⟩
  | atom a => exact ⟨single a, rfl⟩
  | pairs entries => exact ⟨ofList entries, rfl⟩
  | product x y left right =>
    obtain ⟨c, builtLeft⟩ := left fits.1
    obtain ⟨d, builtRight⟩ := right fits.2
    exact ⟨c * d, by simp [build, builtLeft, builtRight]⟩
  | quotient x y left right =>
    obtain ⟨c, builtLeft⟩ := left fits.1
    obtain ⟨d, builtRight⟩ := right fits.2
    exact ⟨c / d, by simp [build, builtLeft, builtRight]⟩
  | inverse x ih =>
    obtain ⟨c, built⟩ := ih fits
    exact ⟨c⁻¹, by simp [build, built]⟩
  | power x n ih =>
    obtain ⟨c, built⟩ := ih fits.1
    have counts := (of_build built).2
    have raised : c.powi? n = some (c.zpow n) :=
      powi?_eq_some_iff.mpr ⟨rfl, fun a => (counts a).symm ▸ fits.2 a⟩
    exact ⟨c.zpow n, by simp [build, built, raised]⟩

theorem build_eq_some_iff : x.build = some c ↔ x.Fits ∧ ∀ a, c.count a = x.count a := by
  constructor
  · exact of_build
  · rintro ⟨fits, counts⟩
    obtain ⟨d, built⟩ := exists_build fits
    -- There is only one composite with these counts.
    have same : d = c := ext_count fun a => ((of_build built).2 a).trans (counts a).symm
    exact same ▸ built

end Construction

/-! ### Lists of pairs -/

theorem ofList_eq_iff {xs ys : List (α × Int)} :
    ofList xs = ofList ys ↔ ∀ a, total a xs = total a ys := by
  simp only [ext_count_iff, count_ofList]

omit [TransOrd α] [LawfulEqOrd α] in
theorem total_eq_of_perm {xs ys : List (α × Int)} (permuted : xs.Perm ys) (a : α) :
    total a xs = total a ys := by
  induction permuted with
  | nil => rfl
  | cons pair _ ih => rw [total_cons, total_cons, ih]
  | swap first second rest => simp only [total_cons, Int.add_left_comm]
  | trans _ _ first second => exact first.trans second

theorem ofList_append (xs ys : List (α × Int)) : ofList (xs ++ ys) = ofList xs * ofList ys :=
  ext_count fun a => by rw [count_mul, count_ofList, count_ofList, count_ofList, total_append]

theorem ofList_flatten (groups : List (List (α × Int))) :
    ofList groups.flatten = (groups.map ofList).prod := by
  induction groups with
  | nil => rfl
  | cons group groups ih =>
    rw [List.flatten_cons, ofList_append, ih, List.map_cons, List.prod_cons]

/-! ### When zeros are dropped -/

section Zeros

omit [TransOrd α] [LawfulEqOrd α]

/-- Add `n` to the count of `a` in a sorted list of entries. The entry stays, also if its count is
zero. -/
def accumulate (a : α) (n : Int) : List (α × Int) → List (α × Int)
  | [] => [(a, n)]
  | (b, m) :: rest =>
    match compare a b with
    | .lt => (a, n) :: (b, m) :: rest
    | .eq => (b, m + n) :: rest
    | .gt => (b, m) :: accumulate a n rest

variable {a : α} {n : Int} {entries : List (α × Int)}

omit [Ord α] in
theorem purge_eq_self (nonzero : ∀ entry ∈ entries, entry.2 ≠ 0) : purge entries = entries :=
  List.filter_eq_self.mpr fun entry member => decide_eq_true (nonzero entry member)

variable [TransOrd α]

/-- Accumulating stores the sum with the count there is. -/
theorem accumulate_eq_setEntry (sorted : entries.Pairwise fun x y => compare x.1 y.1 = .lt) :
    accumulate a n entries = Tally.setEntry a (total a entries + n) entries := by
  induction entries with
  | nil => simp [accumulate, Tally.setEntry]
  | cons head rest ih =>
    have later := ih (List.pairwise_cons.mp sorted).2
    simp only [accumulate, Tally.setEntry]
    cases order : compare a head.1 with
    | lt =>
      have above : compare head.1 a = .gt := OrientedCmp.gt_iff_lt.mpr order
      -- An atom before the first one is not counted yet.
      simp [above, total_rest_eq_zero sorted]
    | eq =>
      have here : compare head.1 a = .eq := OrientedCmp.eq_symm order
      simp [here, total_rest_eq_zero sorted]
    | gt =>
      have below : compare head.1 a = .lt := OrientedCmp.gt_iff_lt.mp order
      simp [below, later]

theorem sorted_accumulate (sorted : entries.Pairwise fun x y => compare x.1 y.1 = .lt) :
    (accumulate a n entries).Pairwise fun x y => compare x.1 y.1 = .lt := by
  rw [accumulate_eq_setEntry sorted]
  exact Tally.sorted_setEntry sorted

omit [TransOrd α] in
theorem addEntry_of_forall_lt (before : ∀ entry ∈ entries, compare a entry.1 = .lt) :
    addEntry a n entries = if n = 0 then entries else (a, n) :: entries := by
  cases entries with
  | nil => rfl
  | cons head rest => simp [addEntry, before head (by simp)]

theorem purge_accumulate [LawfulEqOrd α]
    (sorted : entries.Pairwise fun x y => compare x.1 y.1 = .lt) :
    purge (accumulate a n entries) = addEntry a n (purge entries) := by
  induction entries with
  | nil => rw [accumulate, purge_cons]; rfl
  | cons head rest ih =>
    obtain ⟨b, m⟩ := head
    obtain ⟨lower, sortedRest⟩ := List.pairwise_cons.mp sorted
    -- An entry that will be dropped leaves those behind it, which are about larger atoms.
    have behind (before : compare a b = .lt) :
        addEntry a n (purge rest) = if n = 0 then purge rest else (a, n) :: purge rest :=
      addEntry_of_forall_lt fun entry member =>
        TransCmp.lt_trans before (lower entry (List.mem_of_mem_filter member))
    simp only [accumulate]
    split
    next before =>
      -- The new entry comes first, whether the one after it is kept or not.
      rw [purge_cons, purge_cons]
      by_cases zero : m = 0
      · rw [if_pos zero, behind before]
      · rw [if_neg zero, addEntry, before]
    next same =>
      obtain rfl : a = b := LawfulEqOrd.eq_of_compare same
      rw [purge_cons, purge_cons]
      by_cases zero : m = 0
      · rw [if_pos zero, zero, Int.zero_add, addEntry_of_forall_lt]
        exact fun entry member => lower entry (List.mem_of_mem_filter member)
      · rw [if_neg zero, addEntry, same]
    next after =>
      rw [purge_cons, purge_cons, ih sortedRest]
      by_cases zero : m = 0
      · rw [if_pos zero, if_pos zero]
      · rw [if_neg zero, if_neg zero, addEntry, after]

variable [LawfulEqOrd α]

/-- It makes no difference whether zeros are dropped as they come up or all together at the end. -/
theorem entries_foldl_add (pairs : List (α × Int))
    (sorted : entries.Pairwise fun x y => compare x.1 y.1 = .lt) (same : purge entries = c.entries) :
    (pairs.foldl (fun sum pair => sum.add pair.1 pair.2) c).entries =
      purge (pairs.foldl (fun map pair => accumulate pair.1 pair.2 map) entries) := by
  induction pairs generalizing c entries with
  | nil => exact same.symm
  | cons pair pairs ih =>
    refine ih (sorted_accumulate sorted) ?_
    rw [purge_accumulate sorted, same]
    rfl

theorem entries_mul : (c * d).entries =
    purge (d.entries.foldl (fun map entry => accumulate entry.1 entry.2 map) c.entries) :=
  entries_foldl_add d.entries c.sorted (purge_eq_self c.nonzero)

theorem entries_ofList_append (xs : List (α × Int)) (a : α) (n : Int) :
    (ofList (xs ++ [(a, n)])).entries = purge (accumulate a n (ofList xs).entries) := by
  rw [ofList, List.foldl_append]
  exact entries_foldl_add [(a, n)] (ofList xs).sorted (purge_eq_self (ofList xs).nonzero)

end Zeros

/-! ### Freeness -/

/-- A reading of the atoms in a commutative group extends to all composites, in one way. -/
theorem existsUnique_hom {G : Type v} [CommGroup G] (f : α → G) :
    ∃! φ : Composite α →* G, ∀ a, φ (single a) = f a := by
  refine ⟨eval f, eval_single f, fun φ agrees => MonoidHom.ext fun c => ?_⟩
  calc φ c
      = φ (eval single c) := by rw [Expr.eval_single_self]
    _ = eval (fun a => φ (single a)) c := map_eval φ single c
    _ = eval f c := by rw [funext agrees]

/-! ### Main result -/

/-- Composites count exactly, in whichever way they are put together: no zero is stored, and a power
is missing just if a count of it does not fit. Products and lists of pairs may add up all counts
before zeros are dropped. So composites form the free commutative group over the atoms, in which
counts decide equality and a list of pairs stands for its totals, however it is ordered and
grouped. -/
theorem composites_count_exactly (x : Construction α) (c d e : Composite α) (a : α) (n : Int)
    (xs ys : List (α × Int)) (groups : List (List (α × Int))) :
    (x.build = some c ↔ x.Fits ∧ ∀ b m, (b, m) ∈ c.entries ↔ m ≠ 0 ∧ x.count b = m) ∧
    (c.powi? n = none ↔ n ≠ 0 ∧ ∃ a, countFits (c.count a * n) = false) ∧
    (c * d).entries =
      purge (d.entries.foldl (fun map entry => accumulate entry.1 entry.2 map) c.entries) ∧
    (ofList (xs ++ [(a, n)])).entries = purge (accumulate a n (ofList xs).entries) ∧
    (c * d * e = c * (d * e) ∧ c * d = d * c ∧ c * 1 = c ∧ c * c⁻¹ = 1 ∧ c / d = c * d⁻¹) ∧
    (c = d ↔ ∀ a, c.count a = d.count a) ∧
    (ofList xs = ofList ys ↔ ∀ a, total a xs = total a ys) ∧
    (xs.Perm ys → ofList xs = ofList ys) ∧
    ofList groups.flatten = (groups.map ofList).prod ∧
    ∀ (G : Type v) [CommGroup G] (f : α → G),
      ∃! φ : Composite α →* G, ∀ a, φ (single a) = f a := by
  refine ⟨?built, powi?_eq_none_iff, entries_mul, entries_ofList_append xs a n,
    ⟨mul_assoc c d e, mul_comm c d, mul_one c, mul_inv_cancel c, div_eq_mul_inv c d⟩,
    ext_count_iff, ofList_eq_iff, ?permuted, ofList_flatten groups, fun _ _ => existsUnique_hom⟩
  case built => rw [Construction.build_eq_some_iff, forall_count_iff]
  case permuted => exact fun permuted => ofList_eq_iff.mpr (total_eq_of_perm permuted)

/-- The square of a force over a mass, from pairs in any order with a zero among them; the square of
the largest count does not fit. -/
theorem acceleration_squared :
    (Construction.power (.quotient (.pairs [("s", -3), ("K", 0), ("kg", 1), ("s", 1), ("m", 1)])
        (.atom "kg")) 2).build = some (ofList [("m", 2), ("s", -4)]) ∧
      ofList [("s", -3), ("m", 1), ("s", 1)] = ofList [("m", 1), ("s", 1), ("s", -3)] ∧
      (ofList [("m", 2147483647)]).powi? 2 = none := by
  refine ⟨?_, ?_, ?_⟩
  · obtain ⟨built, -⟩ := composites_count_exactly.{0, 0} (.power (.quotient (.pairs
      [("s", -3), ("K", 0), ("kg", 1), ("s", 1), ("m", 1)]) (.atom "kg")) 2)
      (ofList [("m", 2), ("s", -4)]) 1 1 "m" 0 [] [] []
    refine built.mpr ⟨⟨⟨trivial, trivial⟩, fun a => ?_⟩, ?_⟩
    · simp only [Construction.count, total_cons, total_nil]
      split_ifs <;> decide
    · rw [← forall_count_iff]
      intro a
      simp only [count_ofList, Construction.count, total_cons, total_nil]
      split_ifs <;> omega
  · obtain ⟨-, -, -, -, -, -, -, permuted, -⟩ := composites_count_exactly.{0, 0} .empty 1 1 1 "m" 0
      [("s", -3), ("m", 1), ("s", 1)] [("m", 1), ("s", 1), ("s", -3)] []
    exact permuted (by decide)
  · obtain ⟨-, missing, -⟩ := composites_count_exactly.{0, 0} .empty
      (ofList [("m", 2147483647)]) 1 1 "m" 2 [] [] []
    exact missing.mpr ⟨by decide, "m", by decide +kernel⟩

end Metrology.Composite
