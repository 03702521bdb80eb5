import Metrology.Proofs.Registry.Histories
import Metrology.Proofs.Registry.Measuring

/-!
# Dimensions as full expansions

The dimension of a unit replaces the scale of each part by its stored derivation, one level deep.
That makes it a homomorphism from units to composites of scales (`Elementary.dimension_eq`), and as
stored derivations describe the written ones, it comes to the same as unfolding what was written
all the way down to base scales.
-/
namespace Metrology.Registry

open Composite

variable {r : Registry} {u w : Unit}

/-! ### The homomorphism -/

/-- What a part of a unit contributes to the dimension. -/
def dimensionAt (r : Registry) (id : UnitId) : Composite ScaleId :=
  r.expandScales (.single (r.scaleAt id))

theorem expandScales_eq_eval (c : Composite ScaleId) :
    r.expandScales c = eval (fun id => (r.derivation? id).getD (.single id)) c :=
  substitute_eq_eval c _

theorem dimensionAt_eq (id : UnitId) :
    r.dimensionAt id = (r.derivation? (r.scaleAt id)).getD (.single (r.scaleAt id)) := by
  rw [dimensionAt, expandScales_eq_eval, eval_single]

/-- The dimension of a unit is the product of what its parts contribute. -/
theorem Elementary.dimension_eq (elementary : r.Elementary u) :
    r.dimension u = .ok ⟨eval r.dimensionAt u.composite⟩ := by
  -- Expanding is a homomorphism itself, so that it may be done part by part.
  have expanded : r.expandScales (eval (fun id => .single (r.scaleAt id)) u.composite)
      = eval r.dimensionAt u.composite := by
    rw [expandScales_eq_eval, map_eval]
    apply eval_congr
    intro entry _
    rw [dimensionAt, expandScales_eq_eval]
  rw [dimension_eq_ok elementary.scalesOf_eq, expanded]

theorem Elementary.dimension_mul (left : r.Elementary u) (right : r.Elementary w) :
    r.dimension (u * w)
      = .ok ⟨eval r.dimensionAt u.composite * eval r.dimensionAt w.composite⟩ := by
  have product : eval r.dimensionAt (u * w).composite = _ :=
    map_mul (eval r.dimensionAt) u.composite w.composite
  rw [Elementary.dimension_eq (u := u * w) (left.mul right), product]

theorem Elementary.dimension_div (left : r.Elementary u) (right : r.Elementary w) :
    r.dimension (u / w)
      = .ok ⟨eval r.dimensionAt u.composite / eval r.dimensionAt w.composite⟩ := by
  have quotient : eval r.dimensionAt (u / w).composite = _ :=
    map_div (eval r.dimensionAt) u.composite w.composite
  rw [Elementary.dimension_eq (u := u / w) (left.div right), quotient]

theorem Elementary.dimension_powi (elementary : r.Elementary u) {n : Int}
    (raised : u.powi n = .ok w) :
    r.dimension w = .ok ⟨(eval r.dimensionAt u.composite).zpow n⟩ := by
  have power : eval r.dimensionAt (u.composite.zpow n) = _ :=
    map_zpow (eval r.dimensionAt) u.composite n
  rw [(elementary_powi elementary raised).dimension_eq, eq_zpow_of_powi raised, power]
  rfl

theorem IsScaledUnit.allAtoms_dimensionAt (wf : r.WellFormed) {id : UnitId}
    (scaled : r.IsScaledUnit id) : (r.dimensionAt id).AllAtoms r.IsBaseScale := by
  rw [dimensionAt_eq]
  cases derived : r.derivation? (r.scaleAt id) with
  | some derivation =>
    -- What is stored has been expanded down to base scales.
    exact (wf.derivations _ _ derived).mono fun _ part => part.1
  | none =>
    obtain ⟨scale, found⟩ := scaled.hasScale wf
    exact allAtoms_single.mpr (isBaseScale_of_derivation? found derived)

theorem Elementary.allAtoms_dimension (wf : r.WellFormed) (elementary : r.Elementary u) :
    (eval r.dimensionAt u.composite).AllAtoms r.IsBaseScale := by
  rw [← substitute_eq_eval]
  exact AllAtoms.substitute fun entry member =>
    (elementary.of_mem member).allAtoms_dimensionAt wf

/-! ### Full expansion -/

/-- The dimension that a unit has by what was written: the scale of each part is unfolded, and
scales are counted as often as the parts are. -/
def IsFullDimension (derivation? : ScaleId → Option (Expr ScaleId)) (r : Registry) (u : Unit)
    (d : Dimension) : Prop :=
  ∃ full : UnitId → Expr ScaleId,
    (∀ entry ∈ u.composite.entries, ∃ scale, r.scaleOf entry.1 = .ok scale ∧
      Expr.Unfolds derivation? scale (full entry.1)) ∧
    ∀ scale, d.composite.count scale
      = (u.composite.entries.map fun entry => entry.2 * (full entry.1).signedCount scale).sum

theorem isFullDimension_eval {definition? : ScaleId → Option (Expr ScaleId)}
    (describes : Expr.Describes r.HasScale (·.index) definition? r.derivation?)
    (elementary : r.Elementary u) :
    IsFullDimension definition? r u ⟨eval r.dimensionAt u.composite⟩ := by
  -- Every scale can be unfolded, and its stored derivation is the composite of what is left.
  choose unfolding unfolds composite using describes.exists_unfolds
  refine ⟨fun id => unfolding (r.scaleAt id), ?parts, ?counts⟩
  case parts =>
    intro entry member
    have measured := (elementary.of_mem member).scaleOf_eq
    exact ⟨r.scaleAt entry.1, measured, unfolds (r.scaleAt entry.1)⟩
  case counts =>
    intro scale
    rw [count_eval]
    apply congrArg List.sum
    apply List.map_congr_left
    intro entry _
    rw [← Expr.count_composite, composite, dimensionAt_eq]

/-! ### Main result -/

/-- The dimension of a unit is over base scales, is the full expansion of what was written, and
turns products, quotients and powers of units into those of dimensions. -/
theorem dimension_fully_expanded {tag : Nat} {history : List Declaration} {a b : Unit}
    (left : Built (after tag history) a) (right : Built (after tag history) b) :
    ∃ da db : Dimension,
      (after tag history).dimension a = .ok da ∧ (after tag history).dimension b = .ok db ∧
      (∀ id ∈ da.expr.atoms, (after tag history).IsBaseScale id) ∧
      IsFullDimension (writtenDerivation? tag history) (after tag history) a da ∧
      (after tag history).dimension (a * b) = .ok ⟨da.composite * db.composite⟩ ∧
      (after tag history).dimension (a / b) = .ok ⟨da.composite / db.composite⟩ ∧
      ∀ n w, a.powi n = .ok w → (after tag history).dimension w = .ok ⟨da.composite.zpow n⟩ := by
  have wf := (reachable_after tag history).wellFormed
  have first := left.elementary
  have second := right.elementary
  refine ⟨_, _, first.dimension_eq, second.dimension_eq, ?base, ?full, first.dimension_mul second,
    first.dimension_div second, fun n w raised => first.dimension_powi raised⟩
  case base =>
    intro id member
    exact first.allAtoms_dimension wf id (Expr.mem_atoms_ofComposite.mp member)
  case full => exact isFullDimension_eval (describes_derivations tag history) first

/-! ### Accelerations -/

/-- An acceleration is derived from a speed, which is derived itself; the latest declaration comes
first. -/
def accelerating : List Declaration :=
  [.unit "gee" ⟨0, 3⟩ 980665 100000,
    .unit "s" ⟨0, 1⟩ 1 1,
    .derivedScale "acceleration" "A" (.frac (.atom ⟨0, 2⟩) (.atom ⟨0, 1⟩)),
    .derivedScale "speed" "V" (.frac (.atom ⟨0, 0⟩) (.atom ⟨0, 1⟩)),
    .scale "time" "T",
    .scale "distance" "L"]

theorem built_single {index : Nat} (declared : (after 0 accelerating).HasUnit ⟨0, index⟩)
    (plain : (after 0 accelerating).reduce (.atom ⟨0, index⟩) = ⟨.single ⟨0, index⟩⟩) :
    Built (after 0 accelerating) ⟨.single ⟨0, index⟩⟩ := by
  rw [← plain]
  refine .reduced (reachable_after 0 accelerating) (.atom ⟨0, index⟩) fun id member => ?_
  obtain rfl : id = ⟨0, index⟩ := by simpa [Expr.atoms] using member
  exact declared

/-- An acceleration is unfolded in two steps, and an acceleration over some time is a speed. -/
theorem dimension_gee :
    Built (after 0 accelerating) ⟨.single ⟨0, 1⟩⟩ ∧ Built (after 0 accelerating) ⟨.single ⟨0, 0⟩⟩ ∧
      ∃ d : Dimension, d = ⟨.ofList [(⟨0, 0⟩, 1), (⟨0, 1⟩, -2)]⟩ ∧
        (after 0 accelerating).dimension ⟨.single ⟨0, 1⟩⟩ = .ok d ∧
        IsFullDimension (writtenDerivation? 0 accelerating) (after 0 accelerating)
          ⟨.single ⟨0, 1⟩⟩ d ∧
        (after 0 accelerating).dimension (⟨.single ⟨0, 1⟩⟩ * ⟨.single ⟨0, 0⟩⟩)
          = .ok ⟨.ofList [(⟨0, 0⟩, 1), (⟨0, 1⟩, -1)]⟩ := by
  have gee : Built (after 0 accelerating) ⟨.single ⟨0, 1⟩⟩ :=
    built_single ⟨_, rfl⟩ (by decide +kernel)
  have second : Built (after 0 accelerating) ⟨.single ⟨0, 0⟩⟩ :=
    built_single ⟨_, rfl⟩ (by decide +kernel)
  obtain ⟨d, t, ofGee, ofSecond, -, full, product, -⟩ := dimension_fully_expanded gee second
  have acceleration : (after 0 accelerating).dimension ⟨.single ⟨0, 1⟩⟩
      = .ok ⟨.ofList [(⟨0, 0⟩, 1), (⟨0, 1⟩, -2)]⟩ := by decide +kernel
  have time : (after 0 accelerating).dimension ⟨.single ⟨0, 0⟩⟩ = .ok ⟨.single ⟨0, 1⟩⟩ := by
    decide +kernel
  obtain rfl := Except.ok.inj (ofGee.symm.trans acceleration)
  obtain rfl := Except.ok.inj (ofSecond.symm.trans time)
  have speed : ofList [((⟨0, 0⟩ : ScaleId), 1), (⟨0, 1⟩, -2)] * single ⟨0, 1⟩
      = ofList [(⟨0, 0⟩, 1), (⟨0, 1⟩, -1)] := by decide +kernel
  refine ⟨gee, second, _, rfl, ofGee, full, ?_⟩
  rw [product, speed]

end Metrology.Registry
