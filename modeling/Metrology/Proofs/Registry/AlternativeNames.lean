import Metrology.Proofs.Registry.Histories
import Metrology.Registry.Text

/-!
# Alternative names are transparent

Alternative names may stand for expressions with alternative names in them. The registry replaces
names by what it keeps for them, one level deep. It comes to the same as replacing them by the
expressions that they were declared for, again and again until none is left: what is kept describes
what was written, and neither cancelling nor sorting cares in which order atoms are replaced.
-/
namespace Metrology.Registry

open Composite Metrology.Expr

/-- Reducing a tree is unfolding all its alternative names and flattening what is left. Unfolding
comes to an end, in one way only; no alternative name is left, and the text of a tree is the text
of the unfolded one. -/
theorem reduce_unfolds_alternatives (tag : Nat) (history : List Declaration) (e : Expr UnitId) :
    ∃ full : Expr UnitId, Unfolded (writtenExpansion? tag history) e full ∧
      (∀ other, Unfolded (writtenExpansion? tag history) e other → other = full) ∧
      ((after tag history).reduce e).expr = full.reduce ∧
      (∀ id ∈ ((after tag history).reduce e).expr.atoms,
        (after tag history).expansion? id = none) ∧
      (after tag history).symbol e = (after tag history).symbol full := by
  have describes := describes_expansions tag history
  obtain ⟨full, unfolded, composite⟩ := describes.exists_unfolded e
  -- Expanding the tree one level deep has led to the same composite as unfolding it.
  have reduced : ((after tag history).reduce e).composite = full.composite := composite.symm
  -- Nothing is written for the atoms that are left, and so nothing is kept for them.
  have plain : ∀ id ∈ full.atoms, (after tag history).expansion? id = none := by
    intro id member
    rw [describes.expanded, unfolded.undefined id member, Option.map_none]
  refine ⟨full, unfolded, fun other also => also.unique unfolded, ?tree, ?atoms, ?text⟩
  case tree => rw [Unit.expr, reduced, Expr.reduce]
  case atoms =>
    intro id member
    have occurs := mem_atoms_ofComposite.mp member
    rw [reduced] at occurs
    -- What occurs after cancelling has occurred before.
    apply allAtoms_value (P := fun id => (after tag history).expansion? id = none) ?_ id occurs
    intro a present
    exact allAtoms_single.mpr (plain a present)
  case text => rw [symbol, symbol, reduced, reduce_composite_of_plain plain]

/-- Joules are named by newtons, which are named themselves; the latest declaration comes first. -/
def mechanics : List Declaration :=
  [.alternative "J" (.mul [.atom ⟨0, 3⟩, .atom ⟨0, 1⟩]),
    .alternative "N"
      (.frac (.mul [.atom ⟨0, 0⟩, .atom ⟨0, 1⟩]) (.mul [.atom ⟨0, 2⟩, .atom ⟨0, 2⟩])),
    .unit "s" ⟨0, 2⟩ 1 1,
    .unit "m" ⟨0, 1⟩ 1 1,
    .unit "kg" ⟨0, 0⟩ 1 1,
    .scale "time" "T",
    .scale "distance" "L",
    .scale "mass" "M"]

example : (after 0 mechanics).symbol (.atom ⟨0, 4⟩) = "kg·m²/s²" := by decide +kernel

example : (after 0 mechanics).symbol (.frac (.atom ⟨0, 4⟩) (.atom ⟨0, 3⟩)) = "m" := by
  decide +kernel

end Metrology.Registry
