import Mathlib.Control.Monad.Basic
import Metrology.Proofs.Registry.Measuring

/-!
# When values can be converted

Between units that a registry has built, whether values can be converted is decided by the units
alone: they have the same dimension, or each is written in a single scale and a transform is
declared for just this pair of scales. All other pairs are refused, with one of two errors, and no
value is ever carried through more than one transform.
-/
namespace Metrology

namespace Registry

open Composite

/-- Some conversion has a transform for the ordered pair of scales. -/
def Transforms (r : Registry) (source target : ScaleId) : Prop :=
  ∃ c ∈ r.conversions, ∃ affine, c.transform? source target = some affine

/-- The units have the same dimension, or a transform is declared from the single scale of the one
to the single scale of the other. -/
def Convertible (r : Registry) (source target : Unit) : Prop :=
  r.dimension source = r.dimension target ∨
    ∃ f t, r.scalesOf source = .ok (.single f) ∧ r.scalesOf target = .ok (.single t) ∧
      r.Transforms f t

/-- The units are written in single scales, and only the way back is declared. -/
def OnlyBack (r : Registry) (source target : Unit) (f t : ScaleId) : Prop :=
  r.scalesOf source = .ok (.single f) ∧ r.scalesOf target = .ok (.single t) ∧
    ¬ r.Transforms f t ∧ r.Transforms t f

/-- A route on which no transform is met. -/
def ByFactors (r : Registry) (source target : Unit) (route : Route Float) : Prop :=
  (source = target ∧ route = .same) ∨
    (∃ ratio, r.ratio source target = .ok ratio ∧ route = .ratio ratio) ∨
    ∃ toBase fromBase, r.scaling source = .ok toBase ∧ r.scaling target = .ok fromBase ∧
      route = .rescale toBase fromBase

/-- A route on which one transform is met, declared for the single scales of the units. -/
def ByTransform (r : Registry) (source target : Unit) (route : Route Float) : Prop :=
  ∃ f t toBase affine fromBase,
    r.scalesOf source = .ok (.single f) ∧ r.scalesOf target = .ok (.single t) ∧
      (∃ c ∈ r.conversions, c.transform? f t = some affine) ∧
      r.scaling source = .ok toBase ∧ r.scaling target = .ok fromBase ∧
      route = .transform toBase affine fromBase

variable {r : Registry} {source target : Unit} {f t : ScaleId}

/-- The single scale of a unit is determined. -/
theorem eq_of_scalesOf_single {g : ScaleId} (here : r.scalesOf source = .ok (.single f))
    (there : r.scalesOf source = .ok (.single g)) : g = f := by
  have same : (Composite.single f).single? = some g :=
    single?_eq_some_iff.mpr (Except.ok.inj (here.symm.trans there))
  exact (Option.some.inj same).symm

theorem OnlyBack.unique {g s : ScaleId} (here : r.OnlyBack source target f t)
    (there : r.OnlyBack source target g s) : g = f ∧ s = t :=
  ⟨eq_of_scalesOf_single here.1 there.1, eq_of_scalesOf_single here.2.1 there.2.1⟩

/-! ### Transforms -/

theorem hasTransform_iff : r.hasTransform f t = true ↔ r.Transforms f t := by
  simp [hasTransform, Transforms, Option.isSome_iff_exists]

theorem transform?_eq_none_iff : r.transform? f t = none ↔ ¬ r.Transforms f t := by
  simp only [transform?, Transforms, List.findSome?_eq_none_iff, not_exists, not_and]
  constructor
  · intro none c member affine some
    rw [none c member] at some
    cases some
  · intro none c member
    exact Option.eq_none_iff_forall_ne_some.mpr (none c member)

theorem exists_of_transform?_eq_some {affine : Affine Float} (found : r.transform? f t = some affine) :
    ∃ c ∈ r.conversions, c.transform? f t = some affine :=
  List.exists_of_findSome?_eq_some found

/-! ### The route between elementary units -/

/-- A transform carries values just if there is one, between the scalings of the units. -/
theorem transforming_eq_ok_iff {way : Route Float} :
    r.transforming source target f t = .ok way ↔ ∃ affine toBase fromBase,
      r.transform? f t = some affine ∧ r.scaling source = .ok toBase ∧
        r.scaling target = .ok fromBase ∧ .transform toBase affine fromBase = way := by
  unfold transforming
  cases declared : r.transform? f t with
  | some affine =>
    simp only [bind_eq_ok, pure, Except.pure, Except.ok.injEq, Option.some.injEq, exists_and_left,
      exists_eq_left']
  | none =>
    simp only [reduceCtorEq, false_and, exists_false, iff_false]
    split
    · -- Whichever name is missing, the outcome is an error.
      simp only [bind_eq_ok, throw, throwThe, MonadExceptOf.throw, reduceCtorEq, and_false,
        exists_false, not_false_eq_true]
    · exact nofun

theorem route_eq {sourceScales targetScales : Composite ScaleId} (checkSource : r.check source = .ok ⟨⟩)
    (checkTarget : r.check target = .ok ⟨⟩) (measureSource : r.scalesOf source = .ok sourceScales)
    (measureTarget : r.scalesOf target = .ok targetScales) :
    r.route source target =
      if source = target then .ok .same
      else if r.expandScales sourceScales = r.expandScales targetScales then
        r.rescaling source target
      else match sourceScales.single?, targetScales.single? with
        | some f, some t => r.transforming source target f t
        | _, _ => .error (r.incompatible source target) := by
  have sourceDimension := dimension_eq_ok measureSource
  have targetDimension := dimension_eq_ok measureTarget
  cases single : sourceScales.single? with
  | none =>
    simp [route, checkSource, checkTarget, sourceDimension, targetDimension, measureSource,
      measureTarget, single, bind_ok, pure, Except.pure, throw, throwThe, MonadExceptOf.throw]
  | some f =>
    cases singleTarget : targetScales.single? with
    | none =>
      simp [route, checkSource, checkTarget, sourceDimension, targetDimension, measureSource,
        measureTarget, singleTarget, bind_ok, pure, Except.pure, throw, throwThe,
        MonadExceptOf.throw]
    | some t =>
      simp [route, checkSource, checkTarget, sourceDimension, targetDimension, measureSource,
        measureTarget, single, singleTarget, bind_ok, pure, Except.pure]

theorem rescaling_byFactors {route : Route Float} (found : r.rescaling source target = .ok route) :
    r.ByFactors source target route := by
  unfold rescaling at found
  split at found
  next ratio exact =>
    obtain rfl := Except.ok.inj found
    exact .inr (.inl ⟨ratio, exact, rfl⟩)
  next =>
    obtain ⟨toBase, atSource, rest⟩ := bind_eq_ok.mp found
    obtain ⟨fromBase, atTarget, same⟩ := bind_eq_ok.mp rest
    obtain rfl := Except.ok.inj same
    exact .inr (.inr ⟨toBase, fromBase, atSource, atTarget, rfl⟩)
  next => cases found

theorem transforming_cases (fromSource : r.Elementary source) (toTarget : r.Elementary target)
    (measureSource : r.scalesOf source = .ok (.single f))
    (measureTarget : r.scalesOf target = .ok (.single t)) (sourceKnown : r.HasScale f)
    (targetKnown : r.HasScale t) :
    (r.Transforms f t ∧ ∃ route, r.transforming source target f t = .ok route ∧
      r.ByTransform source target route) ∨
    (r.OnlyBack source target f t ∧ ∃ sourceName targetName, r.scaleName f = .ok sourceName ∧
      r.scaleName t = .ok targetName ∧
      r.transforming source target f t = .error (.noScaleConversion sourceName targetName)) ∨
    (¬ r.Transforms f t ∧ ¬ r.Transforms t f ∧
      r.transforming source target f t = .error (r.incompatible source target)) := by
  unfold transforming
  cases declared : r.transform? f t with
  | some affine =>
    -- The transform stands between the scalings of the units, which always exist.
    left
    obtain ⟨c, member, here⟩ := exists_of_transform?_eq_some declared
    obtain ⟨toBase, atSource⟩ := fromSource.exists_scaling
    obtain ⟨fromBase, atTarget⟩ := toTarget.exists_scaling
    refine ⟨⟨c, member, affine, here⟩, .transform toBase affine fromBase, ?_, ?_⟩
    · simp [atSource, atTarget, bind, Except.bind, pure, Except.pure]
    · exact ⟨f, t, toBase, affine, fromBase, measureSource, measureTarget, ⟨c, member, here⟩,
        atSource, atTarget, rfl⟩
  | none =>
    right
    have noWay := transform?_eq_none_iff.mp declared
    by_cases back : r.Transforms t f
    · left
      obtain ⟨sourceScale, sourceFound⟩ := sourceKnown
      obtain ⟨targetScale, targetFound⟩ := targetKnown
      have sourceNamed := scaleName_eq_ok_iff.mpr ⟨sourceScale, sourceFound, rfl⟩
      have targetNamed := scaleName_eq_ok_iff.mpr ⟨targetScale, targetFound, rfl⟩
      refine ⟨⟨measureSource, measureTarget, noWay, back⟩, _, _, sourceNamed, targetNamed, ?_⟩
      simp [hasTransform_iff.mpr back, sourceNamed, targetNamed, bind, Except.bind, throw, throwThe,
        MonadExceptOf.throw]
    · right
      have noWayBack : r.hasTransform t f = false := by
        rw [← Bool.not_eq_true, hasTransform_iff]
        exact back
      exact ⟨noWay, back, by simp [noWayBack]⟩

/-! ### All outcomes -/

theorem dimension_eq_iff {sourceScales targetScales : Composite ScaleId}
    (measureSource : r.scalesOf source = .ok sourceScales)
    (measureTarget : r.scalesOf target = .ok targetScales) :
    r.dimension source = r.dimension target ↔
      r.expandScales sourceScales = r.expandScales targetScales := by
  rw [dimension_eq_ok measureSource, dimension_eq_ok measureTarget]
  simp

/-- Either there is a route, or one of the two errors says why there is none. -/
theorem route_cases (wf : r.WellFormed) (fromSource : r.Elementary source)
    (toTarget : r.Elementary target) :
    (r.Convertible source target ∧ ∃ route, r.route source target = .ok route ∧
      ((r.dimension source = r.dimension target ∧ r.ByFactors source target route) ∨
        (r.dimension source ≠ r.dimension target ∧ r.ByTransform source target route))) ∨
    (¬ r.Convertible source target ∧ ∃ f t sourceName targetName, r.OnlyBack source target f t ∧
      r.scaleName f = .ok sourceName ∧ r.scaleName t = .ok targetName ∧
      r.route source target = .error (.noScaleConversion sourceName targetName)) ∨
    (¬ r.Convertible source target ∧ (∀ f t, ¬ r.OnlyBack source target f t) ∧
      r.route source target = .error (r.incompatible source target)) := by
  obtain ⟨sourceScales, measureSource, sourceKnown⟩ := fromSource.exists_scalesOf wf
  obtain ⟨targetScales, measureTarget, targetKnown⟩ := toTarget.exists_scalesOf wf
  have sameDimension := dimension_eq_iff measureSource measureTarget
  rw [route_eq fromSource.check toTarget.check measureSource measureTarget]
  -- The cases are taken in the order of the code: equal units, equal dimensions, single scales.
  by_cases same : source = target
  · left
    subst same
    exact ⟨.inl rfl, .same, by simp, .inl ⟨rfl, .inl ⟨rfl, rfl⟩⟩⟩
  rw [if_neg same]
  by_cases expanded : r.expandScales sourceScales = r.expandScales targetScales
  · left
    obtain ⟨route, found⟩ := fromSource.exists_rescaling toTarget
    have alike := sameDimension.mpr expanded
    exact ⟨.inl alike, route, by rw [if_pos expanded, found],
      .inl ⟨alike, rescaling_byFactors found⟩⟩
  rw [if_neg expanded]
  have differ : r.dimension source ≠ r.dimension target := fun alike =>
    expanded (sameDimension.mp alike)
  -- Whatever single scales the units are written in, the code has found them.
  have singles : ∀ f t, r.scalesOf source = .ok (.single f) → r.scalesOf target = .ok (.single t) →
      sourceScales.single? = some f ∧ targetScales.single? = some t := by
    intro f t atSource atTarget
    exact ⟨single?_eq_some_iff.mpr (Except.ok.inj (measureSource.symm.trans atSource)),
      single?_eq_some_iff.mpr (Except.ok.inj (measureTarget.symm.trans atTarget))⟩
  by_cases written : ∃ f t, sourceScales.single? = some f ∧ targetScales.single? = some t
  · obtain ⟨f, t, single, singleTarget⟩ := written
    obtain rfl := single?_eq_some_iff.mp single
    obtain rfl := single?_eq_some_iff.mp singleTarget
    have only : ∀ g s, r.scalesOf source = .ok (.single g) → r.scalesOf target = .ok (.single s) →
        f = g ∧ t = s := by
      intro g s atSource atTarget
      obtain ⟨sameSource, sameTarget⟩ := singles g s atSource atTarget
      exact ⟨Option.some.inj sameSource, Option.some.inj sameTarget⟩
    have unconvertible : ¬ r.Transforms f t → ¬ r.Convertible source target := by
      rintro noWay (alike | ⟨g, s, atSource, atTarget, way⟩)
      · exact differ alike
      · obtain ⟨rfl, rfl⟩ := only g s atSource atTarget
        exact noWay way
    rcases transforming_cases fromSource toTarget measureSource measureTarget
        (allAtoms_single.mp sourceKnown) (allAtoms_single.mp targetKnown) with
      ⟨way, route, found, byTransform⟩
      | ⟨onlyBack, sourceName, targetName, sourceNamed, targetNamed, refused⟩
      | ⟨noWay, noWayBack, refused⟩
    · left
      exact ⟨.inr ⟨f, t, measureSource, measureTarget, way⟩, route, found,
        .inr ⟨differ, byTransform⟩⟩
    · right; left
      exact ⟨unconvertible onlyBack.2.2.1, f, t, sourceName, targetName, onlyBack, sourceNamed,
        targetNamed, refused⟩
    · right; right
      refine ⟨unconvertible noWay, ?_, refused⟩
      rintro g s ⟨atSource, atTarget, -, back⟩
      obtain ⟨rfl, rfl⟩ := only g s atSource atTarget
      exact noWayBack back
  · -- Nothing can be declared for units that are not both written in single scales.
    right; right
    refine ⟨?_, ?_, ?_⟩
    · rintro (alike | ⟨f, t, atSource, atTarget, -⟩)
      · exact differ alike
      · exact written ⟨f, t, singles f t atSource atTarget⟩
    · rintro f t ⟨atSource, atTarget, -⟩
      exact written ⟨f, t, singles f t atSource atTarget⟩
    · split
      next f t single singleTarget => exact absurd ⟨f, t, single, singleTarget⟩ written
      next => rfl

/-! ### Converting -/

theorem convert_eq_ok_iff {value result : Float} :
    r.convert value source target = .ok result ↔
      ∃ route, r.route source target = .ok route ∧ route.run value = result := by
  simp only [convert, pure, Except.pure, bind_eq_ok, Except.ok.injEq]

theorem convert_eq_error_iff {value : Float} {error : UnitError} :
    r.convert value source target = .error error ↔ r.route source target = .error error := by
  unfold convert
  cases r.route source target <;> simp [bind, Except.bind, pure, Except.pure]

theorem not_exists_convert {error : UnitError} (refused : r.route source target = .error error)
    (value : Float) :
    ¬ ∃ result, r.convert value source target = .ok result := by
  rintro ⟨result, converted⟩
  rw [convert_eq_error_iff.mpr refused] at converted
  cases converted

/-- Convertibility is decided by the units and never by the value. -/
theorem convert_outcome (reachable : r.Reachable) (sourceBuilt : Built r source)
    (targetBuilt : Built r target) (value : Float) :
    (∃ d, r.dimension source = .ok d) ∧ (∃ d, r.dimension target = .ok d) ∧
    ((∃ result, r.convert value source target = .ok result) ↔ r.Convertible source target) ∧
    (∀ error, r.convert value source target = .error error ↔
      ¬ r.Convertible source target ∧
        ((∃ f t sourceName targetName, r.OnlyBack source target f t ∧
            r.scaleName f = .ok sourceName ∧ r.scaleName t = .ok targetName ∧
            error = .noScaleConversion sourceName targetName) ∨
          ((∀ f t, ¬ r.OnlyBack source target f t) ∧
            error = .incompatible (r.unitText source) (r.unitText target)))) ∧
    (∀ result, r.convert value source target = .ok result →
      ∃ route : Route Float, result = route.run value ∧
        ((r.dimension source = r.dimension target ∧ r.ByFactors source target route) ∨
          (r.dimension source ≠ r.dimension target ∧ r.ByTransform source target route))) := by
  have wf := reachable.wellFormed
  have fromSource := sourceBuilt.elementary
  have toTarget := targetBuilt.elementary
  obtain ⟨sourceScales, measureSource, -⟩ := fromSource.exists_scalesOf wf
  obtain ⟨targetScales, measureTarget, -⟩ := toTarget.exists_scalesOf wf
  refine ⟨⟨_, dimension_eq_ok measureSource⟩, ⟨_, dimension_eq_ok measureTarget⟩, ?_⟩
  rcases route_cases wf fromSource toTarget with
    ⟨convertible, route, found, means⟩
    | ⟨refused, f, t, sourceName, targetName, onlyBack, sourceNamed, targetNamed, outcome⟩
    | ⟨refused, never, outcome⟩
  · -- There is a route, so that no error is possible.
    have converted : r.convert value source target = .ok (route.run value) :=
      convert_eq_ok_iff.mpr ⟨route, found, rfl⟩
    refine ⟨iff_of_true ⟨_, converted⟩ convertible, fun error => ?_, fun result same => ?_⟩
    · refine iff_of_false ?_ (fun ⟨refused, _⟩ => refused convertible)
      rw [converted]
      exact nofun
    · exact ⟨route, Except.ok.inj (same.symm.trans converted), means⟩
  · have failed := not_exists_convert outcome value
    refine ⟨iff_of_false failed refused, fun error => ?_, fun result converted =>
      absurd ⟨result, converted⟩ failed⟩
    rw [convert_eq_error_iff, outcome, Except.error.injEq]
    constructor
    · rintro rfl
      exact ⟨refused, .inl ⟨f, t, sourceName, targetName, onlyBack, sourceNamed, targetNamed, rfl⟩⟩
    · rintro ⟨-, ⟨g, s, gName, sName, otherBack, gNamed, sNamed, rfl⟩ | ⟨never, -⟩⟩
      · -- The scales of the units are determined, and with them the names.
        obtain ⟨rfl, rfl⟩ := onlyBack.unique otherBack
        rw [Except.ok.inj (sourceNamed.symm.trans gNamed),
          Except.ok.inj (targetNamed.symm.trans sNamed)]
      · exact absurd onlyBack (never f t)
  · have failed := not_exists_convert outcome value
    refine ⟨iff_of_false failed refused, fun error => ?_, fun result converted =>
      absurd ⟨result, converted⟩ failed⟩
    rw [convert_eq_error_iff, outcome, Except.error.injEq]
    constructor
    · rintro rfl
      exact ⟨refused, .inr ⟨never, rfl⟩⟩
    · rintro ⟨-, ⟨g, s, gName, sName, back, -⟩ | ⟨-, rfl⟩⟩
      · exact absurd back (never g s)
      · rfl

/-- Two temperature scales between which only one way is declared. -/
def oneWay : Registry :=
  let scales := ((empty 0).declared (.scale "kelvin" "Θ")).declared (.scale "celsius" "Θ°C")
  let units := (scales.declared (.unit "K" ⟨0, 0⟩ 1 1)).declared (.unit "°C" ⟨0, 1⟩ 1 1)
  units.declared (.conversion ⟨0, 0⟩ ⟨0, 1⟩ (.shift (-273.15)) none)

theorem convert_oneWay :
    ∃ kelvin celsius, oneWay.atom "K" = .ok kelvin ∧ oneWay.atom "°C" = .ok celsius ∧
      (∃ result, oneWay.convert 293.15 kelvin celsius = .ok result) ∧
      oneWay.convert 20 celsius kelvin = .error (.noScaleConversion "celsius" "kelvin") := by
  have reachable : oneWay.Reachable :=
    .declared (.declared (.declared (.declared (.declared (.empty 0) _) _) _) _) _
  -- Each fact about the five declarations is computed.
  have kelvin : oneWay.atom "K" = .ok ⟨.single ⟨0, 0⟩⟩ := by decide +kernel
  have celsius : oneWay.atom "°C" = .ok ⟨.single ⟨0, 1⟩⟩ := by decide +kernel
  have inKelvin : oneWay.scalesOf ⟨.single ⟨0, 0⟩⟩ = .ok (.single ⟨0, 0⟩) := by decide +kernel
  have inCelsius : oneWay.scalesOf ⟨.single ⟨0, 1⟩⟩ = .ok (.single ⟨0, 1⟩) := by decide +kernel
  have way : oneWay.Transforms ⟨0, 0⟩ ⟨0, 1⟩ := hasTransform_iff.mp (by decide +kernel)
  have noWay : ¬ oneWay.Transforms ⟨0, 1⟩ ⟨0, 0⟩ := fun back =>
    absurd (hasTransform_iff.mpr back) (by decide +kernel)
  refine ⟨_, _, kelvin, celsius, ?_, ?_⟩
  · obtain ⟨-, -, decided, -⟩ :=
      convert_outcome reachable (.named reachable kelvin) (.named reachable celsius) 293.15
    exact decided.mpr (.inr ⟨_, _, inKelvin, inCelsius, way⟩)
  · obtain ⟨-, -, -, refused, -⟩ :=
      convert_outcome reachable (.named reachable celsius) (.named reachable kelvin) 20
    refine (refused _).mpr ⟨?_, .inl ⟨_, _, _, _, ⟨inCelsius, inKelvin, noWay, way⟩, ?_, ?_, rfl⟩⟩
    · rintro (alike | ⟨f, t, atSource, atTarget, back⟩)
      · exact absurd alike (by decide +kernel)
      · have sources := single?_eq_some_iff.mpr (Except.ok.inj (inCelsius.symm.trans atSource))
        have targets := single?_eq_some_iff.mpr (Except.ok.inj (inKelvin.symm.trans atTarget))
        obtain rfl : ⟨0, 1⟩ = f := Option.some.inj sources
        obtain rfl : ⟨0, 0⟩ = t := Option.some.inj targets
        exact noWay back
    · decide +kernel
    · decide +kernel

end Registry

end Metrology
