import Metrology.Proofs.Composite.Atoms

/-!
# Powers within the limit

A power is given out only if all of its counts fit and none of them exceeds the limit. The limit is
far below what fits, so that it decides alone (`boundedPowi?_eq_some_iff`).
-/
namespace Metrology.Composite

open Std

universe u

variable {α : Type u} [Ord α]

/-- No atom is counted more often than a power may have it. -/
def WithinLimit (c : Composite α) : Prop := ∀ a, (c.count a).natAbs ≤ exponentLimit

theorem foldl_max_le_iff {β : Type u} {entries : List (β × Int)} {start bound : Nat} :
    entries.foldl (fun largest entry => max largest entry.2.natAbs) start ≤ bound ↔
      start ≤ bound ∧ ∀ entry ∈ entries, entry.2.natAbs ≤ bound := by
  induction entries generalizing start with
  | nil => simp
  | cons entry rest ih => rw [List.foldl_cons, ih, Nat.max_le, List.forall_mem_cons, and_assoc]

variable [TransOrd α] [LawfulEqOrd α] {c power : Composite α} {n : Int}

theorem forall_entries_iff {P : Int → Prop} (atZero : P 0) :
    (∀ entry ∈ c.entries, P entry.2) ↔ ∀ a, P (c.count a) := by
  constructor
  · intro each a
    by_cases absent : c.count a = 0
    · exact absent ▸ atZero
    · exact each _ (mem_of_count absent)
  · intro each entry member
    exact (mem_entries_iff.mp member).2 ▸ each entry.1

theorem maxPower_le_iff {bound : Nat} :
    c.maxPower ≤ bound ↔ ∀ a, (c.count a).natAbs ≤ bound := by
  rw [maxPower, foldl_max_le_iff]
  refine (and_iff_right (Nat.zero_le bound)).trans ?_
  exact forall_entries_iff (P := fun n => n.natAbs ≤ bound) (Nat.zero_le bound)

instance : Decidable c.WithinLimit := decidable_of_iff (c.maxPower ≤ exponentLimit) maxPower_le_iff

/-- Counts within the limit fit. -/
theorem powi?_eq_some_of_withinLimit (within : (c.zpow n).WithinLimit) :
    c.powi? n = some (c.zpow n) := by
  have each : ∀ entry ∈ c.entries, countFits (entry.2 * n) = true := by
    refine (forall_entries_iff (P := fun m => countFits (m * n) = true) ?_).mpr fun a => ?_
    · simp [countFits]
    have bounded := within a
    rw [count_zpow, exponentLimit] at bounded
    simp only [countFits, Bool.and_eq_true, decide_eq_true_eq]
    omega
  rw [powi?, if_pos (List.all_eq_true.mpr each)]

theorem boundedPowi?_eq_some_iff :
    c.boundedPowi? n = some power ↔ power = c.zpow n ∧ power.WithinLimit := by
  constructor
  · intro raised
    refine ⟨eq_zpow_of_boundedPowi? raised, maxPower_le_iff.mp ?_⟩
    exact of_decide_eq_true (Option.filter_eq_some_iff.mp raised).2
  · rintro ⟨rfl, within⟩
    rw [boundedPowi?, powi?_eq_some_of_withinLimit within]
    exact Option.filter_eq_some_iff.mpr ⟨rfl, decide_eq_true (maxPower_le_iff.mpr within)⟩

theorem boundedPowi?_eq_none_iff : c.boundedPowi? n = none ↔ ¬ (c.zpow n).WithinLimit := by
  simp [Option.eq_none_iff_forall_ne_some, boundedPowi?_eq_some_iff]

theorem withinLimit_zpow_single {a : α} :
    ((single a).zpow n).WithinLimit ↔ n.natAbs ≤ exponentLimit := by
  constructor
  · intro within
    simpa [count_single] using within a
  · intro small b
    rw [count_zpow, count_single]
    split <;> simp [small]

end Metrology.Composite
