import Mathlib.Logic.Relation
import Metrology.Proofs.Factor
import Metrology.Registry.History
import Metrology.Registry.Lemmas

/-!
# What declarations add

Whatever is declared, and whether it succeeds or not, the registry only goes through additions: one
scale, one named unit or one conversion at a time, each under the conditions that were checked
(`Addition`). A property of all reachable registries is therefore one that holds of empty
registries and that each kind of addition keeps (`Reachable.induction`).
-/
namespace Metrology

namespace Registry

/-- The scale has been declared here. -/
def HasScale (r : Registry) (id : ScaleId) : Prop := ∃ scale, r.scale? id = some scale

/-- The named unit has been declared here. -/
def HasUnit (r : Registry) (id : UnitId) : Prop := ∃ unit, r.unit? id = some unit

/-- One accepted addition, with all that was checked before it. -/
inductive Addition (r : Registry) : Registry → Prop
  | baseScale (name symbol : String) (free : r.scaleNames.lookup name = none) :
      Addition r (r.withScale ⟨name, symbol, none⟩)
  | derivedScale (name symbol : String) (derivation : Expr ScaleId)
      (free : r.scaleNames.lookup name = none)
      (known : ∀ id ∈ derivation.atoms, r.HasScale id)
      (notReciprocal : derivation.composite.reciprocal? = none)
      (notReciprocalExpanded : (derivation.compositeWith r.derivation?).reciprocal? = none)
      (notEmpty : derivation.composite.isEmpty = false)
      (notSingle : derivation.composite.single? = none) :
      Addition r (r.withScale ⟨name, symbol, some (derivation.compositeWith r.derivation?)⟩)
  | scaledUnit (symbol : String) (scale : ScaleId) (factor : Factor)
      (free : r.unitSymbols.lookup symbol = none) (known : r.HasScale scale)
      (positive : 0 < factor) (fits : factor.fits = true) :
      Addition r (r.withUnit ⟨symbol, .scaled scale factor⟩)
  | alternative (symbol : String) (e : Expr UnitId) (free : r.unitSymbols.lookup symbol = none)
      (known : ∀ id ∈ e.atoms, r.HasUnit id) : Addition r (r.withUnit ⟨symbol, .alternative (r.reduce e).composite⟩)
  | conversion (c : ScaleConversion) (sourceKnown : r.HasScale c.source)
      (targetKnown : r.HasScale c.target) (distinct : c.source ≠ c.target)
      (invertible : c.forward.isInvertible = true)
      (invertibleBack : c.backward.any (!·.isInvertible) = false)
      (free : r.hasTransform c.source c.target = false)
      (freeBack : c.backward.isSome = true → r.hasTransform c.target c.source = false) :
      Addition r (r.withConversion c)

/-- Any number of additions. -/
def Extends : Registry → Registry → Prop := Relation.ReflTransGen Addition

instance : IsPreorder Registry Extends :=
  inferInstanceAs (IsPreorder Registry (Relation.ReflTransGen Addition))

variable {r after : Registry}

theorem scaleName_eq_ok_iff {id : ScaleId} {name : String} :
    r.scaleName id = .ok name ↔ ∃ scale, r.scale? id = some scale ∧ scale.name = name := by
  unfold scaleName
  cases r.scale? id <;> simp

/-! ### Each declaration -/

theorem addition_of_addScale {name symbol : String} {id : ScaleId}
    (accepted : r.addScale name symbol = .ok (id, after)) : Addition r after := by
  obtain ⟨free, -, rfl⟩ := appendScale_eq_ok_iff.mp accepted
  exact .baseScale name symbol free

/-- All that is checked before a derived scale is added, in the order of the checks. -/
theorem addDerivedScale_eq_ok {name symbol : String} {derivation : Expr ScaleId} {id : ScaleId}
    (accepted : r.addDerivedScale name symbol derivation = .ok (id, after)) :
    ((∀ part ∈ derivation.atoms, r.HasScale part) ∧ derivation.composite.reciprocal? = none ∧
      (derivation.compositeWith r.derivation?).reciprocal? = none ∧
      derivation.composite.isEmpty = false ∧ derivation.composite.single? = none ∧
      r.scaleNames.lookup name = none) ∧ id = ⟨r.tag, r.scales.length⟩ ∧
    after = r.withScale ⟨name, symbol, some (derivation.compositeWith r.derivation?)⟩ := by
  unfold addDerivedScale at accepted
  split at accepted
  · cases accepted
  next noneUnknown =>
    have known : ∀ part ∈ derivation.atoms, r.HasScale part := by
      simpa [HasScale, Option.ne_none_iff_exists'] using noneUnknown
    dsimp only at accepted
    split at accepted
    · cases accepted
    next notInverse =>
      split at accepted
      · cases accepted
      next notTrivial =>
        obtain ⟨free, new, same⟩ := appendScale_eq_ok_iff.mp accepted
        simp only [Bool.or_eq_true, not_or, Bool.not_eq_true, Option.isSome_eq_false_iff,
          Option.isNone_iff_eq_none] at notInverse notTrivial
        exact ⟨⟨known, notInverse.1, notInverse.2, notTrivial.1, notTrivial.2, free⟩, new, same⟩

theorem addition_of_addDerivedScale {name symbol : String} {derivation : Expr ScaleId}
    {id : ScaleId} (accepted : r.addDerivedScale name symbol derivation = .ok (id, after)) :
    Addition r after := by
  obtain ⟨⟨known, notReciprocal, notReciprocalExpanded, notEmpty, notSingle, free⟩, -, rfl⟩ :=
    addDerivedScale_eq_ok accepted
  exact .derivedScale name symbol derivation free known notReciprocal notReciprocalExpanded notEmpty
    notSingle

theorem addScaledUnit_eq_ok {symbol : String} {scale : ScaleId} {factor : Factor} {id : UnitId}
    (accepted : r.addScaledUnit symbol scale factor = .ok (id, after)) :
    r.HasScale scale ∧ r.unitSymbols.lookup symbol = none ∧
      after = r.withUnit ⟨symbol, .scaled scale factor⟩ := by
  unfold addScaledUnit at accepted
  cases named : r.scaleName scale with
  | error error => simp [named, bind, Except.bind] at accepted
  | ok name =>
    simp only [named, bind, Except.bind] at accepted
    obtain ⟨found, known, -⟩ := scaleName_eq_ok_iff.mp named
    obtain ⟨free, -, same⟩ := appendUnit_eq_ok_iff.mp accepted
    exact ⟨⟨found, known⟩, free, same⟩

theorem addUnit_eq_ok {symbol : String} {scale : ScaleId} {num den : UInt64} {id : UnitId}
    (accepted : r.addUnit symbol scale num den = .ok (id, after)) :
    ∃ factor, 0 < factor ∧ factor.fits = true ∧
      r.addScaledUnit symbol scale factor = .ok (id, after) := by
  unfold addUnit at accepted
  split at accepted
  next factor made =>
    obtain ⟨positive, fits⟩ := Factor.ofWords?_eq_some made
    exact ⟨factor, positive, fits, accepted⟩
  · cases accepted

theorem addPrefixedUnit_eq_ok {symbol : String} {scale : ScaleId} {base : Factor}
    {metric : MetricPrefix} {id : UnitId} (positive : 0 < base)
    (accepted : r.addPrefixedUnit symbol scale base metric = .ok (id, after)) :
    ∃ factor, 0 < factor ∧ factor.fits = true ∧
      r.addScaledUnit (metric.symbol ++ symbol) scale factor = .ok (id, after) := by
  unfold addPrefixedUnit at accepted
  dsimp only at accepted
  split at accepted
  next factor made =>
    obtain ⟨power, atPrefix, product⟩ := Option.bind_eq_some_iff.mp made
    obtain ⟨stillPositive, fits⟩ :=
      Factor.mul?_pos product (MetricPrefix.factor_pos atPrefix) positive
    exact ⟨factor, stillPositive, fits, accepted⟩
  · cases accepted

theorem addition_of_addScaledUnit {symbol : String} {scale : ScaleId} {factor : Factor}
    {id : UnitId} (positive : 0 < factor) (fits : factor.fits = true)
    (accepted : r.addScaledUnit symbol scale factor = .ok (id, after)) : Addition r after := by
  obtain ⟨known, free, rfl⟩ := addScaledUnit_eq_ok accepted
  exact .scaledUnit symbol scale factor free known positive fits

theorem addAlternative_eq_ok {symbol : String} {e : Expr UnitId} {id : UnitId}
    (accepted : r.addAlternative symbol e = .ok (id, after)) :
    ((∀ part ∈ e.atoms, r.HasUnit part) ∧ r.unitSymbols.lookup symbol = none) ∧
      id = ⟨r.tag, r.units.length⟩ ∧
      after = r.withUnit ⟨symbol, .alternative (r.reduce e).composite⟩ := by
  unfold addAlternative at accepted
  split at accepted
  · cases accepted
  next noneUnknown =>
    have known : ∀ part ∈ e.atoms, r.HasUnit part := by
      simpa [HasUnit, Option.ne_none_iff_exists'] using noneUnknown
    obtain ⟨free, new, same⟩ := appendUnit_eq_ok_iff.mp accepted
    exact ⟨⟨known, free⟩, new, same⟩

theorem addition_of_addAlternative {symbol : String} {e : Expr UnitId} {id : UnitId}
    (accepted : r.addAlternative symbol e = .ok (id, after)) : Addition r after := by
  obtain ⟨⟨known, free⟩, -, rfl⟩ := addAlternative_eq_ok accepted
  exact .alternative symbol e free known

theorem addConversion_eq_ok {source target : ScaleId} {forward : Affine Float}
    {backward : Option (Affine Float)}
    (accepted : r.addConversion source target forward backward = .ok after) :
    (r.HasScale source ∧ r.HasScale target ∧ source ≠ target ∧ forward.isInvertible = true ∧
      backward.any (!·.isInvertible) = false ∧ r.hasTransform source target = false ∧
      (backward.isSome = true → r.hasTransform target source = false)) ∧
    after = r.withConversion ⟨source, target, forward, backward⟩ := by
  unfold addConversion at accepted
  cases atSource : r.scaleName source with
  | error error => simp [atSource, bind, Except.bind] at accepted
  | ok sourceName =>
    cases atTarget : r.scaleName target with
    | error error => simp [atSource, atTarget, bind, Except.bind] at accepted
    | ok targetName =>
      simp only [atSource, atTarget, bind, Except.bind, pure, Except.pure, throw, throwThe,
        MonadExceptOf.throw] at accepted
      obtain ⟨sourceScale, sourceKnown, -⟩ := scaleName_eq_ok_iff.mp atSource
      obtain ⟨targetScale, targetKnown, -⟩ := scaleName_eq_ok_iff.mp atTarget
      -- What is left are three refusals and the addition.
      split at accepted
      · cases accepted
      next distinct =>
      split at accepted
      · cases accepted
      next invertible =>
      split at accepted
      · cases accepted
      next free =>
        simp only [Bool.or_eq_true, Bool.and_eq_true, not_or, not_and, Bool.not_eq_true] at invertible free
        exact ⟨⟨⟨sourceScale, sourceKnown⟩, ⟨targetScale, targetKnown⟩, distinct,
          by simpa using invertible.1, invertible.2, free.1, free.2⟩, (Except.ok.inj accepted).symm⟩

theorem addition_of_addConversion {source target : ScaleId} {forward : Affine Float}
    {backward : Option (Affine Float)}
    (accepted : r.addConversion source target forward backward = .ok after) :
    Addition r after := by
  obtain ⟨⟨sourceKnown, targetKnown, distinct, invertible, invertibleBack, free, freeBack⟩, rfl⟩ :=
    addConversion_eq_ok accepted
  exact .conversion ⟨source, target, forward, backward⟩ sourceKnown targetKnown distinct invertible
    invertibleBack free freeBack

end Registry

namespace Declaring

open Registry

variable {β γ : Type}

/-! ### Series of declarations -/

/-- However far the declarations get, the registry before them is related to the one after them. -/
def Respects (R : Registry → Registry → Prop) (m : Declaring β) : Prop := ∀ r, R r (m r).2

section Series

variable {R : Registry → Registry → Prop} [IsPreorder Registry R]

theorem respects_pure (result : β) : Respects R (pure result) := fun r => refl_of R r

theorem respects_throw (error : UnitError) : Respects R (throw error : Declaring β) :=
  fun r => refl_of R r

theorem Respects.bind {m : Declaring β} {f : β → Declaring γ} (first : Respects R m)
    (rest : ∀ result, Respects R (f result)) : Respects R (m >>= f) := by
  intro r
  change R r ((ExceptT.bindCont f (m r).1) (m r).2).2
  have middle := first r
  cases (m r).1 with
  | ok result => exact trans_of R middle (rest result (m r).2)
  | error error =>
    -- The rest is not reached; what was declared before stays.
    exact middle

omit [IsPreorder Registry R] in
theorem Respects.discard {m : Declaring β} (all : Respects R m) : Respects R (discard m) := fun r => by
  rw [snd_discard]
  exact all r

theorem respects_step {declare : Registry → Except UnitError (β × Registry)}
    (accepted : ∀ r result after, declare r = .ok (result, after) → R r after) :
    Respects R (step declare) := by
  intro r
  unfold step
  cases outcome : declare r with
  | ok pair => exact accepted r pair.1 pair.2 outcome
  | error error => exact refl_of R r

theorem respects_mapM {f : β → Declaring γ} {items : List β} (each : ∀ item, Respects R (f item)) :
    Respects R (items.mapM f) := by
  induction items with
  | nil => exact respects_pure []
  | cons item items ih =>
    rw [List.mapM_cons]
    exact (each item).bind fun result => ih.bind fun results => respects_pure (result :: results)

theorem respects_prefixedUnits {symbol : String} {scale : ScaleId} {num den : UInt64}
    {prefixes : List MetricPrefix}
    (accepted : ∀ base metric r id after, 0 < base →
      r.addPrefixedUnit symbol scale base metric = .ok (id, after) → R r after) :
    Respects R (prefixedUnits symbol scale num den prefixes) := by
  unfold prefixedUnits
  split
  next base made =>
    have positive := (Factor.ofWords?_eq_some made).1
    exact respects_mapM fun metric => respects_step fun r id after =>
      accepted base metric r id after positive
  · exact respects_throw _

/-- What every addition that a declaration can make respects, the declaration respects. -/
theorem respects_declare (d : Declaration)
    (scale : ∀ {r name symbol id after}, r.addScale name symbol = .ok (id, after) → R r after)
    (derivedScale : ∀ {r name symbol derivation id after},
      d = .derivedScale name symbol derivation →
      r.addDerivedScale name symbol derivation = .ok (id, after) → R r after)
    (scaledUnit : ∀ {r symbol scale factor id after}, 0 < factor → factor.fits = true →
      r.addScaledUnit symbol scale factor = .ok (id, after) → R r after)
    (alternative : ∀ {r symbol e id after}, d = .alternative symbol e →
      r.addAlternative symbol e = .ok (id, after) → R r after)
    (conversion : ∀ {r source target forward backward after},
      r.addConversion source target forward backward = .ok after → R r after) :
    Respects R (declare d) := by
  have variants : ∀ symbol scale num den prefixes,
      Respects R (prefixedUnits symbol scale num den prefixes) := by
    intro symbol scale num den prefixes
    refine respects_prefixedUnits fun base metric r id after positive accepted => ?_
    obtain ⟨factor, stillPositive, fits, scaled⟩ := addPrefixedUnit_eq_ok positive accepted
    exact scaledUnit stillPositive fits scaled
  cases d with
  | scale name symbol =>
    apply Respects.discard
    exact respects_step fun _ _ _ accepted => scale accepted
  | derivedScale name symbol derivation =>
    apply Respects.discard
    exact respects_step fun _ _ _ accepted => derivedScale rfl accepted
  | unit symbol scale num den =>
    apply Respects.discard
    refine respects_step fun r id after accepted => ?_
    obtain ⟨factor, positive, fits, scaled⟩ := addUnit_eq_ok accepted
    exact scaledUnit positive fits scaled
  | prefixedUnits symbol scale num den prefixes =>
    apply Respects.discard
    exact variants symbol scale num den prefixes
  | metricUnits symbol scale num den =>
    apply Respects.discard
    exact variants symbol scale num den MetricPrefix.all
  | alternative symbol e =>
    apply Respects.discard
    exact respects_step fun _ _ _ accepted => alternative rfl accepted
  | conversion source target forward backward =>
    refine respects_step fun r result after accepted => ?_
    cases outcome : r.addConversion source target forward backward with
    | ok declared =>
      rw [outcome] at accepted
      cases accepted
      exact conversion outcome
    | error error => rw [outcome] at accepted; cases accepted

end Series

theorem extends_declare (d : Declaration) : Respects Extends (declare d) := by
  have one : ∀ {r after : Registry}, Addition r after → Extends r after := .single
  apply respects_declare
  case scale => exact fun accepted => one (addition_of_addScale accepted)
  case derivedScale => exact fun _ accepted => one (addition_of_addDerivedScale accepted)
  case scaledUnit =>
    exact fun positive fits accepted => one (addition_of_addScaledUnit positive fits accepted)
  case alternative => exact fun _ accepted => one (addition_of_addAlternative accepted)
  case conversion => exact fun accepted => one (addition_of_addConversion accepted)

end Declaring

namespace Registry

/-! ### Reachable registries -/

variable {r after : Registry}

theorem extends_declared (r : Registry) (d : Declaration) : r.Extends (r.declared d) :=
  Declaring.extends_declare d r

/-- What every addition keeps is kept by any number of them. -/
theorem Extends.keeps {motive : Registry → Prop} (path : r.Extends after)
    (addition : ∀ r after, motive r → Addition r after → motive after) (holds : motive r) :
    motive after := by
  induction path with
  | refl => exact holds
  | tail _ last ih => exact addition _ _ ih last

/-- What empty registries have and every addition keeps, all reachable registries have. -/
theorem Reachable.induction {motive : Registry → Prop} (empty : ∀ tag, motive (.empty tag))
    (addition : ∀ r after, motive r → Addition r after → motive after) {r : Registry}
    (reachable : r.Reachable) : motive r := by
  induction reachable with
  | empty tag => exact empty tag
  | declared _ d ih => exact (extends_declared _ d).keeps addition ih

end Registry

end Metrology
