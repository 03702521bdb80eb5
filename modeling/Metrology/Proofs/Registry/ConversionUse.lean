import Metrology.Proofs.Registry.ConversionOrder
import Metrology.Proofs.Registry.ExactConversion
import Metrology.Proofs.Registry.Permanence

/-!
# When a declared conversion is used

A conversion that has been accepted stays, and no other one has its transforms, so that the search
for a transform finds it ever after. But dimensions come first: between scales that expand to the
same base scales, values are rescaled by factors and no transform is looked for. Whether that is so
can be told when the conversion is declared, since expansions stay as they are. For two base scales
it is never so.
-/
namespace Metrology.Registry

open Composite

variable {r before next : Registry} {u w : Unit} {f t source target : ScaleId}
  {forward affine : Affine Float} {backward : Option (Affine Float)}

/-- Values are brought to base units by the factor of the one unit, go through the transform and are
brought to the other unit by its factor. In exact arithmetic the factors are what the units are
worth. -/
def ConvertsBy (r : Registry) (affine : Affine Float) (u w : Unit) : Prop :=
  ∃ toBase fromBase, r.scaling u = .ok toBase ∧ r.scaling w = .ok fromBase ∧
    (∀ value : Float,
      r.convert value u w = .ok (fromBase.fromBase (affine.apply (toBase.toBase value)))) ∧
    ∀ value : Rat, r.convertExactly value u w = .ok
      ((affine.map Decimal.exact).apply (value * (r.worth u).val) / (r.worth w).val)

/-- Values are multiplied with the ratio of what the units are worth, without any transform. -/
def ConvertsByFactors (r : Registry) (u w : Unit) : Prop :=
  (∃ way, r.route u w = .ok way ∧ r.ByFactors u w way ∧
    ∀ value : Float, r.convert value u w = .ok (way.run value)) ∧
  ∀ value : Rat, r.convertExactly value u w = .ok (value * (r.worth u).val / (r.worth w).val)

/-! ### Later registries -/

theorem Reachable.foldl_declared (reachable : r.Reachable) (later : List Declaration) :
    (later.foldl Registry.declared r).Reachable := by
  induction later generalizing r with
  | nil => exact reachable
  | cons d later ih => exact ih (reachable.declared d)

theorem grows_foldl_declared (r : Registry) (later : List Declaration) :
    r.Grows (later.foldl declared r) := by
  induction later generalizing r with
  | nil => exact refl_of Grows r
  | cons d later ih => exact trans_of Grows (grows_declared r d) (ih (r.declared d))

/-- What has been declared between two scales stays declared. -/
theorem TransformsBy.grows (transforms : before.TransformsBy f t affine) (grows : before.Grows r) :
    r.TransformsBy f t affine := by
  obtain ⟨c, member, here⟩ := transforms
  exact ⟨c, grows.conversions.mem member, here⟩

/-! ### Expansions of single scales -/

theorem expandScales_single (r : Registry) (scale : ScaleId) :
    r.expandScales (.single scale) = (r.derivation? scale).getD (.single scale) := by
  rw [expandScales_eq_eval, eval_single]

theorem IsBaseScale.expandScales_single {scale : ScaleId} (base : r.IsBaseScale scale) :
    r.expandScales (.single scale) = .single scale := by
  rw [Registry.expandScales_single, base.derivation?_eq_none, Option.getD_none]

/-- Different base scales have different dimensions. -/
theorem IsBaseScale.expandScales_ne (first : r.IsBaseScale f) (second : r.IsBaseScale t)
    (distinct : f ≠ t) : r.expandScales (.single f) ≠ r.expandScales (.single t) := by
  rw [first.expandScales_single, second.expandScales_single]
  intro same
  have counted : (single f).count f = (single t).count f := congrArg (·.count f) same
  simp [count_single, Ne.symm distinct] at counted

/-! ### Conversions between units of two scales -/

theorem convertsBy_of_transformsBy (wf : r.WellFormed) (exclusive : r.Exclusive)
    (fromSource : r.Elementary u) (toTarget : r.Elementary w)
    (differ : r.dimension u ≠ r.dimension w) (atSource : r.scalesOf u = .ok (.single f))
    (atTarget : r.scalesOf w = .ok (.single t)) (transforms : r.TransformsBy f t affine) :
    r.ConvertsBy affine u w := by
  obtain ⟨toBase, first⟩ := fromSource.exists_scaling
  obtain ⟨fromBase, second⟩ := toTarget.exists_scaling
  refine ⟨toBase, fromBase, first, second, fun value => ?_,
    convertExactly_of_transformsBy wf exclusive fromSource toTarget differ atSource atTarget
      transforms⟩
  have found : r.transform? f t = some affine := exclusive.transform?_eq_some_iff.mpr transforms
  have equal : u ≠ w := fun same => differ (congrArg r.dimension same)
  have expanded : r.expandScales (.single f) ≠ r.expandScales (.single t) :=
    mt (dimension_eq_iff atSource atTarget).mpr differ
  -- Equal units and equal dimensions are ruled out, so that the transform is looked for.
  have way : r.route u w = .ok (.transform toBase affine fromBase) := by
    rw [route_eq fromSource.check toTarget.check atSource atTarget, if_neg equal, if_neg expanded]
    exact transforming_eq_ok_iff.mpr ⟨affine, toBase, fromBase, found, first, second, rfl⟩
  exact convert_eq_ok_iff.mpr ⟨_, way, rfl⟩

theorem convertsByFactors_of_dimension_eq (wf : r.WellFormed) (fromSource : r.Elementary u)
    (toTarget : r.Elementary w) (alike : r.dimension u = r.dimension w) :
    r.ConvertsByFactors u w := by
  have convertible : r.Convertible u w := .inl alike
  obtain ⟨way, found, means⟩ := convertible.exists_route wf fromSource toTarget
  rcases means with ⟨-, byFactors⟩ | ⟨differ, -⟩
  · exact ⟨⟨way, found, byFactors, fun value => convert_eq_ok_iff.mpr ⟨way, found, rfl⟩⟩,
      convertExactly_of_dimension_eq wf fromSource toTarget alike⟩
  · exact absurd alike differ

/-! ### Main result -/

/-- A conversion that has been accepted is the one that is used from then on, in each way that it
opens, unless its two scales expand to the same base scales. If they do, it is never used, and values
are rescaled by factors. -/
theorem declared_conversion_is_used (reachable : before.Reachable)
    (accepted : Declaring.conversion source target forward backward before = (.ok ⟨⟩, next))
    {later : List Declaration} (path : later.foldl declared next = r) (builtSource : Built r u)
    (builtTarget : Built r w) (atSource : r.scalesOf u = .ok (.single source))
    (atTarget : r.scalesOf w = .ok (.single target)) :
    (before.expandScales (.single source) ≠ before.expandScales (.single target) →
      r.ConvertsBy forward u w ∧ ∀ affine, backward = some affine → r.ConvertsBy affine w u) ∧
    (before.expandScales (.single source) = before.expandScales (.single target) →
      r.ConvertsByFactors u w ∧ r.ConvertsByFactors w u) ∧
    (before.IsBaseScale source → before.IsBaseScale target →
      before.expandScales (.single source) ≠ before.expandScales (.single target)) := by
  obtain ⟨admitted, -, isNext⟩ := (Declaring.conversion_eq_ok_iff
    (c := ⟨source, target, forward, backward⟩)).mp accepted
  have declaredNext : before.declared (.conversion source target forward backward) = next :=
    congrArg Prod.snd accepted
  have reachableNext : next.Reachable := declaredNext ▸ reachable.declared _
  have reachableLater : r.Reachable := path ▸ reachableNext.foldl_declared later
  have grows : next.Grows r := path ▸ grows_foldl_declared next later
  have grown : before.Grows r :=
    trans_of Grows (declaredNext ▸ grows_declared before _) grows
  have wf := reachableLater.wellFormed
  have fromSource := builtSource.elementary
  have toTarget := builtTarget.elementary
  -- The conversion is at the end of the list that later conversions are added to.
  have member : ⟨source, target, forward, backward⟩ ∈ next.conversions := by
    rw [isNext]
    exact List.mem_append_right _ (List.mem_singleton_self _)
  have there : r.TransformsBy source target forward :=
    TransformsBy.grows ⟨_, member, transform?_source_target _⟩ grows
  have back : ∀ affine, backward = some affine → r.TransformsBy target source affine :=
    fun affine given => TransformsBy.grows
      ⟨_, member, (transform?_target_source admitted.distinct).trans given⟩ grows
  -- Known scales expand as before, so that dimensions differ now if they differed then.
  have sameSource : r.expandScales (.single source) = before.expandScales (.single source) :=
    grown.expandScales_eq (allAtoms_single.mpr admitted.sourceKnown)
  have sameTarget : r.expandScales (.single target) = before.expandScales (.single target) :=
    grown.expandScales_eq (allAtoms_single.mpr admitted.targetKnown)
  have decides := dimension_eq_iff atSource atTarget
  rw [sameSource, sameTarget] at decides
  refine ⟨fun differ => ?used, fun same => ?unused, fun first second => ?base⟩
  case used =>
    have apart := mt decides.mp differ
    exact ⟨convertsBy_of_transformsBy wf reachableLater.exclusive fromSource toTarget apart atSource
        atTarget there,
      fun affine given => convertsBy_of_transformsBy wf reachableLater.exclusive toTarget fromSource
        (Ne.symm apart) atTarget atSource (back affine given)⟩
  case unused =>
    have alike := decides.mpr same
    exact ⟨convertsByFactors_of_dimension_eq wf fromSource toTarget alike,
      convertsByFactors_of_dimension_eq wf toTarget fromSource alike.symm⟩
  case base => exact first.expandScales_ne second admitted.distinct

/-- Kelvins and degrees Celsius, with nothing declared between them. -/
def unconverted : Registry :=
  let scales := ((empty 0).declared (.scale "kelvin" "Θ")).declared (.scale "celsius" "Θ°C")
  (scales.declared (.unit "K" ⟨0, 0⟩ 1 1)).declared (.unit "°C" ⟨0, 1⟩ 1 1)

/-- Both ways that were opened between kelvins and degrees Celsius are still used once there are
millikelvins, and other ways. -/
theorem celsius_conversion_is_used :
    let later : List Declaration :=
      [.unit "mK" ⟨0, 0⟩ 1 1000, .scale "fahrenheit" "Θ°F", .conversion ⟨0, 1⟩ ⟨0, 2⟩ ⟨1.8, 32⟩ none]
    let first := unconverted.declared
      (.conversion ⟨0, 0⟩ ⟨0, 1⟩ (.shift (-273.15)) (some (.shift 273.15)))
    (later.foldl declared first).ConvertsBy (.shift (-273.15)) ⟨.single ⟨0, 2⟩⟩ ⟨.single ⟨0, 1⟩⟩ ∧
      (later.foldl declared first).ConvertsBy (.shift 273.15) ⟨.single ⟨0, 1⟩⟩
        ⟨.single ⟨0, 2⟩⟩ := by
  intro later first
  have reachable : unconverted.Reachable :=
    .declared (.declared (.declared (.declared (.empty 0) _) _) _) _
  have known : (later.foldl declared first).Reachable :=
    Reachable.foldl_declared (.declared reachable _) later
  have milli : Built (later.foldl declared first) ⟨.single ⟨0, 2⟩⟩ :=
    .parsed known (show (later.foldl declared first).parseUnit "mK" = _ by decide +kernel)
  have celsius : Built (later.foldl declared first) ⟨.single ⟨0, 1⟩⟩ :=
    .parsed known (show (later.foldl declared first).parseUnit "°C" = _ by decide +kernel)
  have accepted : (Declaring.conversion ⟨0, 0⟩ ⟨0, 1⟩ (.shift (-273.15)) (some (.shift 273.15))
      unconverted).1 = .ok ⟨⟩ := by decide +kernel
  -- Kelvin and degree Celsius belong to two base scales, which is enough.
  obtain ⟨used, -, base⟩ := declared_conversion_is_used reachable
    (Prod.ext accepted rfl : _ = (_, first)) rfl milli celsius (by decide +kernel) (by decide +kernel)
  obtain ⟨there, back⟩ := used (base ⟨_, rfl, rfl⟩ ⟨_, rfl, rfl⟩)
  exact ⟨there, back _ rfl⟩

/-- Two scales of areas, each a product of two distances, and a unit in each of them. -/
def areas : Registry :=
  let distances := (empty 0).declared (.scale "distance" "L")
  let square : Expr ScaleId := .mul [.atom ⟨0, 0⟩, .atom ⟨0, 0⟩]
  let scales := (distances.declared (.derivedScale "area" "A" square)).declared
    (.derivedScale "acreage" "B" square)
  (scales.declared (.unit "a" ⟨0, 1⟩ 1 1)).declared (.unit "b" ⟨0, 2⟩ 1 1)

/-- A conversion between areas that doubles values is accepted, and a value stays as it is. -/
theorem area_conversion_is_not_used :
    ∃ next, areas.Reachable ∧
      Declaring.conversion ⟨0, 1⟩ ⟨0, 2⟩ ⟨2, 0⟩ none areas = (.ok ⟨⟩, next) ∧
      Built next ⟨.single ⟨0, 0⟩⟩ ∧ Built next ⟨.single ⟨0, 1⟩⟩ ∧
      next.scalesOf ⟨.single ⟨0, 0⟩⟩ = .ok (.single ⟨0, 1⟩) ∧
      next.scalesOf ⟨.single ⟨0, 1⟩⟩ = .ok (.single ⟨0, 2⟩) ∧
      next.factor ⟨.single ⟨0, 0⟩⟩ = .ok 1 ∧ next.factor ⟨.single ⟨0, 1⟩⟩ = .ok 1 ∧
      Affine.apply ⟨2, 0⟩ (3 : Float) = 6 ∧
      next.convert (3 : Float) ⟨.single ⟨0, 0⟩⟩ ⟨.single ⟨0, 1⟩⟩ = .ok 3 ∧
      ¬ next.ConvertsBy ⟨2, 0⟩ ⟨.single ⟨0, 0⟩⟩ ⟨.single ⟨0, 1⟩⟩ := by
  have reachable : areas.Reachable :=
    .declared (.declared (.declared (.declared (.declared (.empty 0) _) _) _) _) _
  have accepted : (Declaring.conversion ⟨0, 1⟩ ⟨0, 2⟩ ⟨2, 0⟩ none areas).1 = .ok ⟨⟩ := by
    decide +kernel
  let next := areas.declared (.conversion ⟨0, 1⟩ ⟨0, 2⟩ ⟨2, 0⟩ none)
  have known : next.Reachable := .declared reachable _
  refine ⟨next, reachable, Prod.ext accepted rfl,
    .parsed known (show next.parseUnit "a" = _ by decide +kernel),
    .parsed known (show next.parseUnit "b" = _ by decide +kernel), by decide +kernel,
    by decide +kernel, by decide +kernel, by decide +kernel, by decide +kernel, by decide +kernel,
    ?_⟩
  -- In exact arithmetic the conversion would have to double the value.
  rintro ⟨-, -, -, -, -, exactly⟩
  exact absurd (exactly 3) (by decide +kernel)

end Metrology.Registry
