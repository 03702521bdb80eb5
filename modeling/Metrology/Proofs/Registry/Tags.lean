import Metrology.Proofs.Composite.Renaming
import Metrology.Proofs.Registry.WellFormed
import Metrology.Proofs.Traversal

/-!
# The standard catalog does not depend on the tag

A registry marks its identifiers with its tag and does nothing else with it. If the tags of a
registry, of all identifiers in it and of those in a declaration of scales, units or conversions are
shifted, the outcome is shifted with them and errors stay as they are (`Shifts`). The same holds of
series of these declarations, so that the standard catalogs of all tags are shifted copies of one.
-/
namespace Metrology

open Composite

/-! ### Shifted identifiers -/

def Ident.shift {kind : IdentKind} (k : Nat) (id : Ident kind) : Ident kind :=
  ⟨id.registry + k, id.index⟩

theorem Ident.shift_injective {kind : IdentKind} (k : Nat) :
    Function.Injective (Ident.shift k : Ident kind → Ident kind) := by
  rintro ⟨registry, index⟩ ⟨other, place⟩ same
  simpa [shift] using same

def Scale.shift (k : Nat) (scale : Scale) : Scale :=
  { scale with derivation := scale.derivation.map (rename (Ident.shift k)) }

def UnitMeaning.shift (k : Nat) : UnitMeaning → UnitMeaning
  | scaled scale factor => scaled (scale.shift k) factor
  | alternative expansion => alternative (rename (Ident.shift k) expansion)

def NamedUnit.shift (k : Nat) (unit : NamedUnit) : NamedUnit :=
  { unit with meaning := unit.meaning.shift k }

def ScaleConversion.shift (k : Nat) (c : ScaleConversion) : ScaleConversion :=
  { c with source := c.source.shift k, target := c.target.shift k }

namespace Registry

/-- The registry with another tag, and with this tag on all of its identifiers. -/
def shift (k : Nat) (r : Registry) : Registry where
  tag := r.tag + k
  scales := r.scales.map (·.shift k)
  units := r.units.map (·.shift k)
  scaleNames := r.scaleNames.map (Prod.map id (·.shift k))
  unitSymbols := r.unitSymbols.map (Prod.map id (·.shift k))
  conversions := r.conversions.map (·.shift k)

variable {r : Registry} {k : Nat}

/-! ### Lookups -/

@[simp] theorem scale?_shift (id : ScaleId) :
    (r.shift k).scale? (id.shift k) = (r.scale? id).map (·.shift k) := by
  simp [scale?, shift, Ident.shift, apply_ite (Option.map _)]

@[simp] theorem unit?_shift (id : UnitId) :
    (r.shift k).unit? (id.shift k) = (r.unit? id).map (·.shift k) := by
  simp [unit?, shift, Ident.shift, apply_ite (Option.map _)]

@[simp] theorem scaleName_shift (id : ScaleId) :
    (r.shift k).scaleName (id.shift k) = r.scaleName id := by
  simp only [scaleName, scale?_shift]
  cases r.scale? id <;> rfl

@[simp] theorem derivation?_shift (id : ScaleId) :
    (r.shift k).derivation? (id.shift k) = (r.derivation? id).map (rename (Ident.shift k)) := by
  simp only [derivation?, scale?_shift]
  cases r.scale? id <;> rfl

theorem lookup_map {β γ : Type} (f : β → γ) (table : List (String × β)) (name : String) :
    (table.map (Prod.map id f)).lookup name = (table.lookup name).map f := by
  induction table with
  | nil => rfl
  | cons entry table ih =>
    obtain ⟨first, value⟩ := entry
    rw [List.map_cons, Prod.map_apply, lookup_cons, lookup_cons, ih, apply_ite (Option.map f)]
    rfl

@[simp] theorem lookup_scaleNames_shift (name : String) :
    (r.shift k).scaleNames.lookup name = (r.scaleNames.lookup name).map (·.shift k) :=
  lookup_map _ _ _

@[simp] theorem lookup_unitSymbols_shift (symbol : String) :
    (r.shift k).unitSymbols.lookup symbol = (r.unitSymbols.lookup symbol).map (·.shift k) :=
  lookup_map _ _ _

/-! ### Declarations -/

theorem withScale_shift (scale : Scale) :
    (r.shift k).withScale (scale.shift k) = (r.withScale scale).shift k := by
  simp [withScale, shift, Ident.shift, Scale.shift]

theorem withUnit_shift (unit : NamedUnit) :
    (r.shift k).withUnit (unit.shift k) = (r.withUnit unit).shift k := by
  simp [withUnit, shift, Ident.shift, NamedUnit.shift]

theorem withConversion_shift (c : ScaleConversion) :
    (r.shift k).withConversion (c.shift k) = (r.withConversion c).shift k := by
  simp [withConversion, shift]

theorem appendScale_shift (scale : Scale) :
    (r.shift k).appendScale (scale.shift k) =
      (r.appendScale scale).map (Prod.map (·.shift k) (·.shift k)) := by
  have free : ((r.shift k).scaleNames.lookup (scale.shift k).name).isSome =
      (r.scaleNames.lookup scale.name).isSome := by
    rw [lookup_scaleNames_shift, Option.isSome_map]
    rfl
  have next : (⟨(r.shift k).tag, (r.shift k).scales.length⟩ : ScaleId) =
      Ident.shift k ⟨r.tag, r.scales.length⟩ := by
    simp [shift, Ident.shift]
  simp only [appendScale, free, next, withScale_shift]
  split <;> rfl

theorem appendUnit_shift (unit : NamedUnit) :
    (r.shift k).appendUnit (unit.shift k) =
      (r.appendUnit unit).map (Prod.map (·.shift k) (·.shift k)) := by
  have free : ((r.shift k).unitSymbols.lookup (unit.shift k).symbol).isSome =
      (r.unitSymbols.lookup unit.symbol).isSome := by
    rw [lookup_unitSymbols_shift, Option.isSome_map]
    rfl
  have next : (⟨(r.shift k).tag, (r.shift k).units.length⟩ : UnitId) =
      Ident.shift k ⟨r.tag, r.units.length⟩ := by
    simp [shift, Ident.shift]
  simp only [appendUnit, free, next, withUnit_shift]
  split <;> rfl

theorem addScale_shift (name symbol : String) :
    (r.shift k).addScale name symbol =
      (r.addScale name symbol).map (Prod.map (·.shift k) (·.shift k)) :=
  appendScale_shift ⟨name, symbol, none⟩

theorem addDerivedScale_shift (name symbol : String) (e : Expr ScaleId) :
    (r.shift k).addDerivedScale name symbol (e.map (·.shift k)) =
      (r.addDerivedScale name symbol e).map (Prod.map (·.shift k) (·.shift k)) := by
  have injective : Function.Injective (Ident.shift k : ScaleId → ScaleId) := Ident.shift_injective k
  have expanded : (e.map (·.shift k)).compositeWith (r.shift k).derivation? = _ :=
    Expr.compositeWith_map derivation?_shift e
  have unknown : (fun id : ScaleId => ((r.shift k).scale? id).isNone) ∘ (·.shift k) =
      fun id => (r.scale? id).isNone := by
    funext id
    simp
  -- What is checked of the renamed composites holds of them as it did before.
  simp only [addDerivedScale, Expr.atoms_map, List.find?_map, unknown, Expr.composite_map, expanded]
  cases e.atoms.find? fun id => (r.scale? id).isNone with
  | some id => rfl
  | none =>
    simp only [Option.map_none, isEmpty_rename injective, single?_rename injective,
      reciprocal?_rename injective, Option.isSome_map]
    split
    · rfl
    · split
      · rfl
      · exact appendScale_shift ⟨name, symbol, some _⟩

theorem addScaledUnit_shift (symbol : String) (scale : ScaleId) (factor : Factor) :
    (r.shift k).addScaledUnit symbol (scale.shift k) factor =
      (r.addScaledUnit symbol scale factor).map (Prod.map (·.shift k) (·.shift k)) := by
  simp only [addScaledUnit, scaleName_shift]
  cases r.scaleName scale with
  | error error => rfl
  | ok name => exact appendUnit_shift ⟨symbol, .scaled scale factor⟩

theorem addUnit_shift (symbol : String) (scale : ScaleId) (num den : UInt64) :
    (r.shift k).addUnit symbol (scale.shift k) num den =
      (r.addUnit symbol scale num den).map (Prod.map (·.shift k) (·.shift k)) := by
  unfold addUnit
  split
  · exact addScaledUnit_shift symbol scale _
  · rfl

theorem addPrefixedUnit_shift (symbol : String) (scale : ScaleId) (base : Factor)
    (metric : MetricPrefix) :
    (r.shift k).addPrefixedUnit symbol (scale.shift k) base metric =
      (r.addPrefixedUnit symbol scale base metric).map (Prod.map (·.shift k) (·.shift k)) := by
  unfold addPrefixedUnit
  dsimp only
  split
  · exact addScaledUnit_shift _ scale _
  · rfl

theorem transform?_shift (c : ScaleConversion) (source target : ScaleId) :
    (c.shift k).transform? (source.shift k) (target.shift k) = c.transform? source target := by
  simp only [ScaleConversion.transform?, ScaleConversion.shift, (Ident.shift_injective k).eq_iff]

theorem hasTransform_shift (source target : ScaleId) :
    (r.shift k).hasTransform (source.shift k) (target.shift k) = r.hasTransform source target := by
  simp only [hasTransform, shift, List.any_map, Function.comp_def, transform?_shift]

theorem addConversion_shift (source target : ScaleId) (forward : Affine Float)
    (backward : Option (Affine Float)) :
    (r.shift k).addConversion (source.shift k) (target.shift k) forward backward =
      (r.addConversion source target forward backward).map (·.shift k) := by
  have added : (r.shift k).withConversion ⟨source.shift k, target.shift k, forward, backward⟩ =
      (r.withConversion ⟨source, target, forward, backward⟩).shift k :=
    withConversion_shift ⟨source, target, forward, backward⟩
  simp only [addConversion, scaleName_shift, hasTransform_shift, (Ident.shift_injective k).eq_iff,
    added]
  cases r.scaleName source with
  | error error => rfl
  | ok sourceName =>
    cases r.scaleName target with
    | error error => rfl
    | ok targetName =>
      -- The checks are the same on both sides.
      simp only [bind_ok]
      split
      · rfl
      · split
        · rfl
        · split <;> rfl

end Registry

/-! ### Series of declarations -/

namespace Declaring

open Registry

variable {β γ β' γ' : Type} {k : Nat}

/-- The second series does in the shifted registry what the first one does. -/
def Shifts (k : Nat) (g : β → β') (m : Declaring β) (m' : Declaring β') : Prop :=
  ∀ r : Registry, m' (r.shift k) = ((m r).1.map g, (m r).2.shift k)

theorem shifts_step {g : β → β'} {declare : Registry → Except UnitError (β × Registry)}
    {declare' : Registry → Except UnitError (β' × Registry)}
    (shifted : ∀ r : Registry, declare' (r.shift k) = (declare r).map (Prod.map g (·.shift k))) :
    Shifts k g (step declare) (step declare') := by
  intro r
  rw [step, step, shifted]
  cases declare r <;> rfl

theorem shifts_pure (g : β → β') (result : β) : Shifts k g (pure result) (pure (g result)) :=
  fun _ => rfl

theorem shifts_throw (g : β → β') (error : UnitError) : Shifts k g (throw error) (throw error) :=
  fun _ => rfl

theorem Shifts.bind {g : β → β'} {h : γ → γ'} {m : Declaring β} {m' : Declaring β'}
    {f : β → Declaring γ} {f' : β' → Declaring γ'} (first : Shifts k g m m')
    (rest : ∀ result, Shifts k h (f result) (f' (g result))) :
    Shifts k h (m >>= f) (m' >>= f') := by
  intro r
  change ExceptT.bindCont f' (m' (r.shift k)).1 (m' (r.shift k)).2 =
    ((ExceptT.bindCont f (m r).1 (m r).2).1.map h, (ExceptT.bindCont f (m r).1 (m r).2).2.shift k)
  -- Whether there is a second part is decided by what the first one has come to.
  rw [first r]
  cases (m r).1 with
  | ok result => exact rest result (m r).2
  | error error => rfl

theorem Shifts.mapM {g : γ → γ'} {f : β → Declaring γ} {f' : β → Declaring γ'}
    (each : ∀ item, Shifts k g (f item) (f' item)) (items : List β) :
    Shifts k (List.map g) (items.mapM f) (items.mapM f') := by
  induction items with
  | nil => exact shifts_pure (List.map g) []
  | cons item items ih =>
    rw [List.mapM_cons, List.mapM_cons]
    exact (each item).bind fun result => ih.bind fun results =>
      shifts_pure (List.map g) (result :: results)

theorem shifts_scale (name symbol : String) :
    Shifts k (·.shift k) (scale name symbol) (scale name symbol) :=
  shifts_step fun _ => addScale_shift name symbol

theorem shifts_derivedScale (name symbol : String) {derivation shifted : Expr ScaleId}
    (same : derivation.map (·.shift k) = shifted) :
    Shifts k (·.shift k) (derivedScale name symbol derivation) (derivedScale name symbol shifted) :=
  shifts_step fun _ => same ▸ addDerivedScale_shift name symbol derivation

theorem shifts_unit (symbol : String) (scale : ScaleId) (num den : UInt64) :
    Shifts k (·.shift k) (unit symbol scale num den) (unit symbol (scale.shift k) num den) :=
  shifts_step fun _ => addUnit_shift symbol scale num den

theorem shifts_prefixedUnits (symbol : String) (scale : ScaleId) (num den : UInt64)
    (prefixes : List MetricPrefix) :
    Shifts k (List.map (·.shift k)) (prefixedUnits symbol scale num den prefixes)
      (prefixedUnits symbol (scale.shift k) num den prefixes) := by
  unfold prefixedUnits
  split
  next base _ =>
    exact Shifts.mapM (fun metric => shifts_step fun _ =>
      addPrefixedUnit_shift symbol scale base metric) prefixes
  · exact shifts_throw _ _

theorem shifts_metricUnits (symbol : String) (scale : ScaleId) (num den : UInt64) :
    Shifts k (List.map (·.shift k)) (metricUnits symbol scale num den)
      (metricUnits symbol (scale.shift k) num den) :=
  shifts_prefixedUnits symbol scale num den MetricPrefix.all

theorem shifts_conversion (source target : ScaleId) (forward : Affine Float)
    (backward : Option (Affine Float)) :
    Shifts k id (conversion source target forward backward)
      (conversion (source.shift k) (target.shift k) forward backward) := by
  refine shifts_step fun r => ?_
  rw [addConversion_shift]
  cases r.addConversion source target forward backward <;> rfl

end Declaring

namespace Catalog

open Declaring

theorem shifts_catalog (k : Nat) : Shifts k id declare declare := by
  unfold declare
  -- Each declaration hands shifted identifiers to those that come after it.
  with_reducible repeat' first
    | refine Shifts.bind (shifts_scale _ _) fun _ => ?_
    | refine Shifts.bind (shifts_derivedScale _ _ (by simp only [Expr.map, Expr.mapTerms]))
        fun _ => ?_
    | refine Shifts.bind (shifts_unit _ _ _ _) fun _ => ?_
    | refine Shifts.bind (shifts_metricUnits _ _ _ _) fun _ => ?_
    | refine Shifts.bind (shifts_conversion _ _ _ _) fun _ => ?_
    | exact shifts_conversion _ _ _ _

/-- The standard catalogs of all tags are copies of one. -/
theorem standard_eq_shift (tag : Nat) : standard tag = (standard 0).shift tag := by
  have start : Registry.empty tag = (Registry.empty 0).shift tag := by
    simp [Registry.shift, Registry.empty]
  rw [standard, start, shifts_catalog tag (.empty 0), standard]

end Catalog

end Metrology
