import Metrology.Proofs.Registry.Convertibility
import Metrology.Proofs.Registry.Dimensions
import Metrology.Registry.Arithmetic

/-!
# Coherent units

The coherent unit of a dimension is put together from units that are worth one of a base scale, the
first that has been declared for each. It measures the dimension it was made for and is worth one
itself, so that quantities are normalised by expressing them in it: whatever unit of the dimension
a quantity comes in, it ends up in the same unit, and there it stays. What can stand in the way is
only that some base scale of the dimension has no such unit.
-/
namespace Metrology

namespace Registry

open Composite

variable {r : Registry} {u w b : Unit} {d : Dimension} {scale : ScaleId} {id : UnitId}

/-! ### Units that are worth one of their scale -/

/-- A named unit that is worth one of the scale. -/
def IsBaseUnit (r : Registry) (scale : ScaleId) (id : UnitId) : Prop :=
  ∃ symbol, r.unit? id = some ⟨symbol, .scaled scale 1⟩

theorem isBaseUnit_of_baseUnitOf? (found : r.baseUnitOf? scale = some id) :
    r.IsBaseUnit scale id := by
  obtain ⟨index, first, rfl⟩ := Option.map_eq_some_iff.mp found
  obtain ⟨bound, worthOne, -⟩ := List.findIdx?_eq_some_iff_getElem.mp first
  have meaning : r.units[index].meaning = .scaled scale 1 := of_decide_eq_true worthOne
  refine ⟨r.units[index].symbol, unit?_eq_some_iff.mpr ⟨rfl, ?_⟩⟩
  rw [List.getElem?_eq_getElem bound, ← meaning]

/-- The search fails only if no unit is worth one of the scale. -/
theorem baseUnitOf?_eq_none_iff : r.baseUnitOf? scale = none ↔ ∀ id, ¬ r.IsBaseUnit scale id := by
  constructor
  · rintro missing id ⟨symbol, found⟩
    obtain ⟨-, entry⟩ := unit?_eq_some_iff.mp found
    have none := List.findIdx?_eq_none_iff.mp (Option.map_eq_none_iff.mp missing) _
      (List.mem_of_getElem? entry)
    simp at none
  · intro never
    cases search : r.baseUnitOf? scale with
    | none => rfl
    | some id => exact absurd (isBaseUnit_of_baseUnitOf? search) (never id)

theorem IsBaseUnit.isScaledUnit (base : r.IsBaseUnit scale id) : r.IsScaledUnit id := by
  obtain ⟨symbol, found⟩ := base
  exact ⟨symbol, scale, 1, found⟩

theorem IsBaseUnit.factorOf_eq (base : r.IsBaseUnit scale id) : r.factorOf id = .ok 1 := by
  obtain ⟨symbol, found⟩ := base
  exact factorOf_eq_ok found

theorem IsBaseUnit.expansion?_eq_none (base : r.IsBaseUnit scale id) : r.expansion? id = none := by
  obtain ⟨symbol, found⟩ := base
  rw [expansion?, found]

theorem IsBaseUnit.dimensionAt_eq (base : r.IsBaseUnit scale id) (elementary : r.IsBaseScale scale) :
    r.dimensionAt id = .single scale := by
  obtain ⟨symbol, found⟩ := base
  have here : r.scaleAt id = scale := by rw [scaleAt, scaleOf_eq_ok found]
  rw [Registry.dimensionAt_eq, here, elementary.derivation?_eq_none, Option.getD_none]

/-! ### What a coherent unit is -/

/-- The unit measures the dimension, it is worth one, and so is each of its parts, in a base scale. -/
structure Coherent (r : Registry) (d : Dimension) (b : Unit) : Prop where
  dimension : r.dimension b = .ok d
  factor : r.factor b = .ok 1
  parts : ∀ part ∈ b.composite.entries, ∃ scale, r.IsBaseScale scale ∧ r.IsBaseUnit scale part.1

/-- A product of powers of ones is one, and no number on the way to it is another. -/
theorem factor_eq_one (elementary : r.Elementary u)
    (ones : ∀ part ∈ u.composite.entries, r.factorOf part.1 = .ok 1) : r.factor u = .ok 1 := by
  have step : ∀ part ∈ u.composite.entries, r.timesPart u 1 part = .ok 1 := by
    intro part member
    have power : Factor.powi? 1 part.2 = some 1 := by
      rw [Factor.powi?_eq_some_iff one_pos Factor.fits_one, one_zpow]
      exact ⟨rfl, Factor.fits_one⟩
    have product : Factor.mul? 1 1 = some 1 := by
      rw [Factor.mul?_eq_some_iff, mul_one]
      exact ⟨rfl, Factor.fits_one⟩
    rw [timesPart, ones part member, bind_ok, power, Option.bind_some, product]
    rfl
  have folded : ∀ parts : List (UnitId × Int), (∀ part ∈ parts, r.timesPart u 1 part = .ok 1) →
      parts.foldlM (r.timesPart u) 1 = .ok 1 := by
    intro parts
    induction parts with
    | nil => exact fun _ => rfl
    | cons part parts ih =>
      intro each
      rw [List.foldlM_cons, each part (by simp), bind_ok]
      exact ih fun other member => each other (by simp [member])
  rw [Registry.factor, elementary.check, bind_ok]
  exact folded _ step

/-- Each part of a coherent unit measures the scale that it stands for. -/
theorem map_dimensionAt {entries : List (ScaleId × Int)} {parts : List (UnitId × Int)}
    (base : ∀ entry ∈ entries, r.IsBaseScale entry.1)
    (paired : List.Forall₂ r.BasePart entries parts) :
    (entries.map fun entry => (single entry.1 : Composite ScaleId) ^ entry.2)
      = parts.map fun part => r.dimensionAt part.1 ^ part.2 := by
  induction paired with
  | nil => rfl
  | @cons entry part entries parts here _ ih =>
    have contributes : r.dimensionAt part.1 = single entry.1 :=
      (isBaseUnit_of_baseUnitOf? here.2.1).dimensionAt_eq (base entry (by simp))
    rw [List.map_cons, List.map_cons, contributes, here.2.2,
      ih fun other member => base other (by simp [member])]

/-- What is found for a dimension over base scales is coherent. -/
theorem coherent_of_baseUnit (base : d.composite.AllAtoms r.IsBaseScale)
    (found : r.baseUnit d = .ok b) : r.Coherent d b := by
  obtain ⟨parts, paired, rfl⟩ := baseUnit_eq_ok_iff.mp found
  have each : ∀ part ∈ parts, ∃ scale, r.IsBaseScale scale ∧ r.IsBaseUnit scale part.1 := by
    intro part member
    obtain ⟨entry, present, -, first, -⟩ := exists_of_forall₂_right paired part member
    exact ⟨entry.1, base.of_mem present, isBaseUnit_of_baseUnitOf? first⟩
  have all : (ofList parts).AllAtoms fun id => ∃ scale, r.IsBaseScale scale ∧ r.IsBaseUnit scale id :=
    allAtoms_ofList each
  -- Units that are worth something are no alternative names, so that nothing is expanded.
  have plain : r.reduce (.ofComposite (.ofList parts)) = ⟨ofList parts⟩ := by
    refine congrArg Unit.mk ((reduce_composite_of_plain fun id member => ?_).trans
      (Expr.composite_ofComposite _))
    obtain ⟨scale, -, unit⟩ := all id (Expr.mem_atoms_ofComposite.mp member)
    exact unit.expansion?_eq_none
  rw [plain]
  have elementary : r.Elementary ⟨ofList parts⟩ := fun id occurs =>
    let ⟨_, _, unit⟩ := all id occurs
    unit.isScaledUnit
  refine ⟨?dimension, ?factor, fun part member => all.of_mem member⟩
  case dimension =>
    have expanded : eval r.dimensionAt (ofList parts) = d.composite := by
      rw [eval_ofList, ← Expr.eval_single_self d.composite, eval_eq_prod]
      exact congrArg List.prod (map_dimensionAt (fun _ => base.of_mem) paired).symm
    rw [elementary.dimension_eq, expanded]
  case factor =>
    refine factor_eq_one elementary fun part member => ?_
    obtain ⟨scale, -, unit⟩ := all.of_mem member
    exact unit.factorOf_eq

/-! ### Dimensions without a coherent unit -/

theorem baseUnit_eq_error {error : UnitError}
    (known : d.composite.AllAtoms r.HasScale) (failed : r.baseUnit d = .error error) :
    ∃ entry ∈ d.composite.entries, ∃ name, r.scaleName entry.1 = .ok name ∧
      (∀ id, ¬ r.IsBaseUnit entry.1 id) ∧ error = .noBaseUnit name := by
  -- Putting the parts together cannot fail, so that the search for one of them has.
  rcases bind_eq_error.mp failed with missing | ⟨parts, -, ⟨⟩⟩
  obtain ⟨entry, member, refused⟩ := exists_of_mapM_eq_error missing
  obtain ⟨scale, found⟩ := known.of_mem member
  have named : r.scaleName entry.1 = .ok scale.name := scaleName_eq_ok_iff.mpr ⟨scale, found, rfl⟩
  rw [named, bind_ok] at refused
  split at refused
  · cases refused
  next none =>
    exact ⟨entry, member, scale.name, named, baseUnitOf?_eq_none_iff.mp none,
      (Except.error.inj refused).symm⟩

/-- There is a coherent unit just if every scale of the dimension has a unit that is worth one. -/
theorem exists_baseUnit_iff (known : d.composite.AllAtoms r.HasScale) :
    (∃ b, r.baseUnit d = .ok b) ↔ ∀ entry ∈ d.composite.entries, ∃ id, r.IsBaseUnit entry.1 id := by
  constructor
  · rintro ⟨b, found⟩ entry member
    obtain ⟨parts, paired, -⟩ := baseUnit_eq_ok_iff.mp found
    obtain ⟨part, -, -, first, -⟩ := exists_of_forall₂_left paired entry member
    exact ⟨part.1, isBaseUnit_of_baseUnitOf? first⟩
  · intro each
    cases outcome : r.baseUnit d with
    | ok b => exact ⟨b, rfl⟩
    | error error =>
      obtain ⟨entry, member, name, -, never, -⟩ := baseUnit_eq_error known outcome
      obtain ⟨id, unit⟩ := each entry member
      exact absurd unit (never id)

/-! ### Normalising -/

theorem normalize_eq_ok_iff {q result : Quantity} (measured : r.dimension q.unit = .ok d)
    (found : r.baseUnit d = .ok b) :
    r.normalize q = .ok result ↔
      ∃ value, r.convert q.value q.unit b = .ok value ∧ result = ⟨value, b⟩ := by
  rw [normalize, measured, bind_ok, found, bind_ok, convertQuantity, bind_eq_ok]
  exact exists_congr fun value => and_congr_right' ⟨fun same => (Except.ok.inj same).symm,
    fun same => congrArg Except.ok same.symm⟩

/-- Values in the coherent unit are left as they are, and values in any other unit of the dimension
can be brought there. -/
theorem Coherent.exists_normalize (wf : r.WellFormed) (coherent : r.Coherent d b)
    (found : r.baseUnit d = .ok b) (elementary : r.Elementary w)
    (measured : r.dimension w = .ok d) (value : Float) :
    ∃ result, r.normalize ⟨value, w⟩ = .ok ⟨result, b⟩ ∧
      r.normalize ⟨result, b⟩ = .ok ⟨result, b⟩ := by
  have target : r.Elementary b := elementary_baseUnit wf found
  have alike : r.dimension w = r.dimension b := measured.trans coherent.dimension.symm
  obtain ⟨route, way⟩ : ∃ route, r.route w b = .ok route := by
    rcases route_cases wf elementary target with ⟨-, route, way, -⟩ | ⟨refused, -⟩ | ⟨refused, -⟩
    · exact ⟨route, way⟩
    · exact absurd (.inl alike) refused
    · exact absurd (.inl alike) refused
  have stay : r.route b b = .ok .same := by
    rw [route_eq target.check target.check target.scalesOf_eq target.scalesOf_eq, if_pos rfl]
  refine ⟨route.run value, ?_, ?_⟩
  · exact (normalize_eq_ok_iff measured found).mpr ⟨_, convert_eq_ok_iff.mpr ⟨route, way, rfl⟩, rfl⟩
  · exact (normalize_eq_ok_iff coherent.dimension found).mpr
      ⟨_, convert_eq_ok_iff.mpr ⟨.same, stay, rfl⟩, rfl⟩

/-! ### Main result -/

/-- The dimension of a unit has no coherent unit exactly if some base scale in it has no unit that is
worth one. Otherwise quantities in all units of the dimension are normalised to one and the same
coherent unit, which changes nothing when it is done again. -/
theorem normal_form_is_coherent (reachable : r.Reachable) (built : Built r u) :
    ∃ d, r.dimension u = .ok d ∧ d.composite.AllAtoms r.IsBaseScale ∧
      ((∃ name, r.baseUnit d = .error (.noBaseUnit name)) ↔
        ∃ entry ∈ d.composite.entries, ∀ id, ¬ r.IsBaseUnit entry.1 id) ∧
      (∀ error, r.baseUnit d = .error error →
        ∃ entry ∈ d.composite.entries, ∃ name, r.scaleName entry.1 = .ok name ∧
          (∀ id, ¬ r.IsBaseUnit entry.1 id) ∧ error = .noBaseUnit name) ∧
      ((∀ entry ∈ d.composite.entries, ∃ id, r.IsBaseUnit entry.1 id) →
        ∃ b, r.baseUnit d = .ok b ∧ Built r b ∧ r.Coherent d b ∧
          ∀ w, Built r w → r.dimension w = .ok d → ∀ value, ∃ result,
            r.normalize ⟨value, w⟩ = .ok ⟨result, b⟩ ∧
              r.normalize ⟨result, b⟩ = .ok ⟨result, b⟩) := by
  have wf := reachable.wellFormed
  have elementary := built.elementary
  have base := elementary.allAtoms_dimension wf
  have known : (eval r.dimensionAt u.composite).AllAtoms r.HasScale :=
    base.mono fun _ ⟨scale, found, _⟩ => ⟨scale, found⟩
  refine ⟨_, elementary.dimension_eq, base, ⟨?missing, ?refused⟩,
    fun error failed => baseUnit_eq_error known failed, ?found⟩
  case missing =>
    rintro ⟨name, failed⟩
    obtain ⟨entry, member, -, -, never, -⟩ := baseUnit_eq_error known failed
    exact ⟨entry, member, never⟩
  case refused =>
    rintro ⟨entry, member, never⟩
    cases outcome : r.baseUnit ⟨eval r.dimensionAt u.composite⟩ with
    | ok b =>
      obtain ⟨id, unit⟩ := (exists_baseUnit_iff known).mp ⟨b, outcome⟩ entry member
      exact absurd unit (never id)
    | error error =>
      obtain ⟨-, -, name, -, -, rfl⟩ := baseUnit_eq_error known outcome
      exact ⟨name, rfl⟩
  case found =>
    intro each
    obtain ⟨b, found⟩ := (exists_baseUnit_iff known).mpr each
    have coherent := coherent_of_baseUnit base found
    exact ⟨b, found, .coherent reachable found, coherent, fun w other measured value =>
      coherent.exists_normalize wf found other.elementary measured value⟩

/-- Distances and times have units that are worth one, masses have not. -/
def sailing : Registry :=
  let bases := (((empty 0).declared (.scale "distance" "L")).declared (.scale "time" "T")).declared
    (.scale "mass" "M")
  let scales := bases.declared (.derivedScale "speed" "v" (.frac (.atom ⟨0, 0⟩) (.atom ⟨0, 1⟩)))
  let units := (scales.declared (.unit "m" ⟨0, 0⟩ 1 1)).declared (.unit "s" ⟨0, 1⟩ 1 1)
  (units.declared (.unit "kn" ⟨0, 3⟩ 463 900)).declared (.unit "g" ⟨0, 2⟩ 1 1000)

/-- Knots are normalised to metres per second, and grams not at all. -/
theorem knots_are_normalised :
    Built sailing ⟨.single ⟨0, 2⟩⟩ ∧ Built sailing ⟨.single ⟨0, 3⟩⟩ ∧
      (∃ result, sailing.normalize ⟨10, ⟨.single ⟨0, 2⟩⟩⟩
          = .ok ⟨result, ⟨.ofList [(⟨0, 0⟩, 1), (⟨0, 1⟩, -1)]⟩⟩ ∧
        sailing.normalize ⟨result, ⟨.ofList [(⟨0, 0⟩, 1), (⟨0, 1⟩, -1)]⟩⟩
          = .ok ⟨result, ⟨.ofList [(⟨0, 0⟩, 1), (⟨0, 1⟩, -1)]⟩⟩) ∧
      sailing.dimension ⟨.single ⟨0, 3⟩⟩ = .ok ⟨.single ⟨0, 2⟩⟩ ∧
      ∃ name, sailing.baseUnit ⟨.single ⟨0, 2⟩⟩ = .error (.noBaseUnit name) := by
  have reachable : sailing.Reachable :=
    .declared (.declared (.declared (.declared (.declared (.declared (.declared (.declared
      (.empty 0) _) _) _) _) _) _) _) _
  have knot : Built sailing ⟨.single ⟨0, 2⟩⟩ :=
    .named reachable (show sailing.atom "kn" = _ by decide +kernel)
  have gram : Built sailing ⟨.single ⟨0, 3⟩⟩ :=
    .named reachable (show sailing.atom "g" = _ by decide +kernel)
  have speed : sailing.dimension ⟨.single ⟨0, 2⟩⟩ = .ok ⟨.ofList [(⟨0, 0⟩, 1), (⟨0, 1⟩, -1)]⟩ := by
    decide +kernel
  have mass : sailing.dimension ⟨.single ⟨0, 3⟩⟩ = .ok ⟨.single ⟨0, 2⟩⟩ := by decide +kernel
  have coherent : sailing.baseUnit ⟨.ofList [(⟨0, 0⟩, 1), (⟨0, 1⟩, -1)]⟩
      = .ok ⟨.ofList [(⟨0, 0⟩, 1), (⟨0, 1⟩, -1)]⟩ := by decide +kernel
  refine ⟨knot, gram, ?normalised, mass, ?missing⟩
  case normalised =>
    obtain ⟨d, measured, -, -, -, found⟩ := normal_form_is_coherent reachable knot
    obtain rfl := Except.ok.inj (measured.symm.trans speed)
    have base : ∀ entry ∈ (ofList [((⟨0, 0⟩ : ScaleId), 1), (⟨0, 1⟩, -1)]).entries,
        ∃ id, sailing.IsBaseUnit entry.1 id := by
      have entries : (ofList [((⟨0, 0⟩ : ScaleId), 1), (⟨0, 1⟩, -1)]).entries
          = [(⟨0, 0⟩, 1), (⟨0, 1⟩, -1)] := by decide +kernel
      rw [entries]
      simp only [List.forall_mem_cons, List.not_mem_nil, false_imp_iff, forall_true_iff, and_true]
      exact ⟨⟨⟨0, 0⟩, "m", by decide +kernel⟩, ⟨⟨0, 1⟩, "s", by decide +kernel⟩⟩
    obtain ⟨b, here, -, -, normalised⟩ := found base
    obtain rfl := Except.ok.inj (here.symm.trans coherent)
    exact normalised _ knot measured 10
  case missing =>
    obtain ⟨d, measured, -, lacking, -, -⟩ := normal_form_is_coherent reachable gram
    obtain rfl := Except.ok.inj (measured.symm.trans mass)
    refine lacking.mpr ⟨(⟨0, 2⟩, 1), by simp, ?_⟩
    exact baseUnitOf?_eq_none_iff.mp (by decide +kernel)

end Registry

end Metrology
