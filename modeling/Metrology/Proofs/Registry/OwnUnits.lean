import Metrology.Proofs.Composite.Powers
import Metrology.Proofs.Registry.Growth
import Metrology.Proofs.Traversal
import Metrology.Registry.Measure

/-!
# The units that a registry builds

A unit built by the operations of one registry from its own identifiers, possibly over several of
its declarations, mentions scaled units of this registry only: alternative names have been expanded
on the way in and products, quotients and powers bring in no new atoms (`Built.elementary`). Such a
unit can always be measured. Its scales and its dimension exist, and its factor can only be
missing because it is too large.
-/
namespace Metrology.Registry

open Composite

/-- A unit that mentions scaled units of the registry only. -/
def Elementary (r : Registry) (u : Unit) : Prop := u.composite.AllAtoms r.IsScaledUnit

/-- A unit built by a registry from its own identifiers, at some time of its history. -/
inductive Built : Registry → Unit → Prop
  | reduced {r : Registry} (reachable : r.Reachable) (e : Expr UnitId)
      (issued : ∀ id ∈ e.atoms, r.HasUnit id) : Built r (r.reduce e)
  | parsed {r : Registry} {u : Unit} (reachable : r.Reachable) {text : String}
      (read : r.parseUnit text = .ok u) : Built r u
  | named {r : Registry} {u : Unit} (reachable : r.Reachable) {symbol : String}
      (found : r.atom symbol = .ok u) : Built r u
  | coherent {r : Registry} {u : Unit} (reachable : r.Reachable) {d : Dimension}
      (found : r.baseUnit d = .ok u) : Built r u
  | product {r : Registry} {u w : Unit} (left : Built r u) (right : Built r w) : Built r (u * w)
  | quotient {r : Registry} {u w : Unit} (left : Built r u) (right : Built r w) : Built r (u / w)
  | power {r : Registry} {u w : Unit} (base : Built r u) {n : Int} (raised : u.powi n = .ok w) :
      Built r w
  | later {r : Registry} {u : Unit} (before : Built r u) (d : Declaration) : Built (r.declared d) u

variable {r : Registry} {u w : Unit}

/-! ### Built units are elementary -/

theorem Elementary.extends {after : Registry} (elementary : r.Elementary u)
    (path : r.Extends after) : after.Elementary u :=
  elementary.mono fun _ scaled => path.grows.isScaledUnit scaled

theorem hasUnit_of_findUnit (wf : r.WellFormed) {symbol : String} {id : UnitId}
    (found : r.findUnit symbol = .ok id) : r.HasUnit id := by
  have named := (wf.unitSymbols symbol id).mp (findUnit_eq_ok_iff.mp found)
  obtain ⟨unit, known, -⟩ := Option.map_eq_some_iff.mp named
  exact ⟨unit, known⟩

theorem elementary_resolve (wf : r.WellFormed) {e : Expr String} (done : r.resolve e = .ok u) :
    r.Elementary u := by
  obtain ⟨resolved, traversed, same⟩ := bind_eq_ok.mp done
  obtain rfl : r.reduce resolved = u := Except.ok.inj same
  exact wf.allAtoms_reduce (Expr.of_traverse_eq_ok traversed fun _ _ found =>
    hasUnit_of_findUnit wf found)

theorem elementary_atom (wf : r.WellFormed) {symbol : String} (done : r.atom symbol = .ok u) :
    r.Elementary u := by
  obtain ⟨id, found, same⟩ := bind_eq_ok.mp done
  obtain rfl : r.reduce (.atom id) = u := Except.ok.inj same
  refine wf.allAtoms_reduce fun other member => ?_
  obtain rfl : other = id := by simpa [Expr.atoms] using member
  exact hasUnit_of_findUnit wf found

theorem hasUnit_of_baseUnitOf? {scale : ScaleId} {id : UnitId}
    (found : r.baseUnitOf? scale = some id) : r.HasUnit id := by
  obtain ⟨index, first, rfl⟩ := Option.map_eq_some_iff.mp found
  obtain ⟨bound, -⟩ := List.findIdx?_eq_some_iff_getElem.mp first
  exact ⟨r.units[index], by simp [unit?, bound]⟩

/-- The parts of a coherent unit belong to those of a dimension: each is the base unit of a scale,
with the exponent of the scale. -/
def BasePart (r : Registry) (entry : ScaleId × Int) (part : UnitId × Int) : Prop :=
  r.HasScale entry.1 ∧ r.baseUnitOf? entry.1 = some part.1 ∧ part.2 = entry.2

theorem baseUnit_eq_ok_iff {d : Dimension} :
    r.baseUnit d = .ok u ↔ ∃ parts, List.Forall₂ r.BasePart d.composite.entries parts ∧
      r.reduce (.ofComposite (.ofList parts)) = u := by
  refine bind_eq_ok.trans (exists_congr fun parts => and_congr
    (mapM_eq_ok_iff_of fun entry part => ?_) ⟨Except.ok.inj, congrArg Except.ok⟩)
  rw [bind_eq_ok]
  constructor
  · rintro ⟨name, named, rest⟩
    obtain ⟨scale, known, -⟩ := scaleName_eq_ok_iff.mp named
    split at rest
    next id found =>
      obtain rfl : (id, entry.2) = part := Except.ok.inj rest
      exact ⟨⟨scale, known⟩, found, rfl⟩
    · cases rest
  · rintro ⟨⟨scale, known⟩, found, same⟩
    refine ⟨scale.name, scaleName_eq_ok_iff.mpr ⟨scale, known, rfl⟩, ?_⟩
    rw [found, ← same]
    rfl

/-- The parts of a coherent unit are named units of the registry. -/
theorem hasUnit_of_baseParts {d : Dimension} {parts : List (UnitId × Int)}
    (paired : List.Forall₂ r.BasePart d.composite.entries parts) :
    ∀ id ∈ (Expr.ofComposite (.ofList parts)).atoms, r.HasUnit id := by
  have known : ∀ part ∈ parts, r.HasUnit part.1 := by
    intro part member
    obtain ⟨entry, -, -, found, -⟩ := exists_of_forall₂_right paired part member
    exact hasUnit_of_baseUnitOf? found
  intro id member
  exact allAtoms_ofList (P := r.HasUnit) known id (Expr.mem_atoms_ofComposite.mp member)

theorem elementary_baseUnit (wf : r.WellFormed) {d : Dimension} (done : r.baseUnit d = .ok u) :
    r.Elementary u := by
  obtain ⟨parts, paired, rfl⟩ := baseUnit_eq_ok_iff.mp done
  exact wf.allAtoms_reduce (hasUnit_of_baseParts paired)

/-- A power is given out just if all of its exponents are within the limit. -/
theorem powi_eq_ok_iff {n : Int} :
    u.powi n = .ok w ↔ w = ⟨u.composite.zpow n⟩ ∧ w.composite.WithinLimit := by
  unfold Unit.powi
  split
  next power raised =>
    obtain ⟨rfl, within⟩ := boundedPowi?_eq_some_iff.mp raised
    simp only [Except.ok.injEq]
    constructor
    · rintro rfl
      exact ⟨rfl, within⟩
    · rintro ⟨rfl, -⟩
      rfl
  next raised =>
    have beyond := boundedPowi?_eq_none_iff.mp raised
    simp only [reduceCtorEq, false_iff]
    rintro ⟨rfl, within⟩
    exact beyond within

theorem powi_eq_error_iff {n : Int} {error : UnitError} :
    u.powi n = .error error ↔ error = .powerOverflow n ∧ ¬ (u.composite.zpow n).WithinLimit := by
  unfold Unit.powi
  split
  next power raised =>
    obtain ⟨rfl, within⟩ := boundedPowi?_eq_some_iff.mp raised
    simp [within]
  next raised => simp [boundedPowi?_eq_none_iff.mp raised, eq_comm]

theorem eq_zpow_of_powi {n : Int} (raised : u.powi n = .ok w) : w = ⟨u.composite.zpow n⟩ :=
  (powi_eq_ok_iff.mp raised).1

theorem elementary_powi {n : Int} (elementary : r.Elementary u) (raised : u.powi n = .ok w) :
    r.Elementary w := by
  rw [eq_zpow_of_powi raised]
  exact elementary.zpow n

theorem Built.reachable (built : Built r u) : r.Reachable := by
  induction built with
  | reduced reachable | parsed reachable | named reachable | coherent reachable => exact reachable
  | product _ _ reachable | quotient _ _ reachable | power _ _ reachable => exact reachable
  | later _ d reachable => exact .declared reachable d

theorem Built.elementary (built : Built r u) : r.Elementary u := by
  -- Alternative names are expanded wherever a tree is reduced; no operation brings in new atoms.
  induction built with
  | reduced reachable e issued => exact reachable.wellFormed.allAtoms_reduce issued
  | parsed reachable read =>
    obtain ⟨e, -, resolved⟩ := bind_eq_ok.mp read
    exact elementary_resolve reachable.wellFormed resolved
  | named reachable found => exact elementary_atom reachable.wellFormed found
  | coherent reachable found => exact elementary_baseUnit reachable.wellFormed found
  | product _ _ left right => exact left.mul right
  | quotient _ _ left right => exact left.div right
  | power _ raised base => exact elementary_powi base raised
  | later _ d before => exact before.extends (extends_declared _ d)

end Metrology.Registry
