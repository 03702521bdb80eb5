import Metrology.Proofs.Registry.WellFormed

/-!
# Registries only grow

Whatever is declared comes after all that is there, under a name that was free. The entries of a
registry are therefore the first ones of all registries that come after it, with the same
identifiers and the same names (`Grows`), and what is known of an identifier that has been given
out stays as it is.
-/
namespace Metrology.Registry

/-- The later registry has the entries of the earlier one, in their places and under their names. -/
structure Grows (before later : Registry) : Prop where
  tag : later.tag = before.tag
  scales : before.scales <+: later.scales
  units : before.units <+: later.units
  conversions : before.conversions <+: later.conversions
  scaleNames : ∀ name id, before.scaleNames.lookup name = some id →
    later.scaleNames.lookup name = some id
  unitSymbols : ∀ symbol id, before.unitSymbols.lookup symbol = some id →
    later.unitSymbols.lookup symbol = some id

instance : IsPreorder Registry Grows where
  refl _ := ⟨rfl, List.prefix_rfl, List.prefix_rfl, List.prefix_rfl, fun _ _ found => found,
    fun _ _ found => found⟩
  trans _ _ _ first second := ⟨second.tag.trans first.tag, first.scales.trans second.scales,
    first.units.trans second.units, first.conversions.trans second.conversions,
    fun name id found => second.scaleNames name id (first.scaleNames name id found),
    fun symbol id found => second.unitSymbols symbol id (first.unitSymbols symbol id found)⟩

variable {r later : Registry}

/-! ### Each addition -/

/-- A free name in front of a table hides none of its entries. -/
theorem lookup_cons_of_some {β : Type} {table : List (String × β)} {first name : String}
    {new id : β} (free : table.lookup first = none) (found : table.lookup name = some id) :
    ((first, new) :: table).lookup name = some id := by
  have differ : name ≠ first := by
    rintro rfl
    rw [free] at found
    cases found
  rw [lookup_cons, if_neg differ, found]

theorem grows_withScale {scale : Scale} (free : r.scaleNames.lookup scale.name = none) :
    r.Grows (r.withScale scale) where
  tag := rfl
  scales := List.prefix_append _ _
  units := List.prefix_rfl
  conversions := List.prefix_rfl
  scaleNames _ _ found := lookup_cons_of_some free found
  unitSymbols _ _ found := found

theorem grows_withUnit {unit : NamedUnit} (free : r.unitSymbols.lookup unit.symbol = none) :
    r.Grows (r.withUnit unit) where
  tag := rfl
  scales := List.prefix_rfl
  units := List.prefix_append _ _
  conversions := List.prefix_rfl
  scaleNames _ _ found := found
  unitSymbols _ _ found := lookup_cons_of_some free found

theorem grows_withConversion (c : ScaleConversion) : r.Grows (r.withConversion c) where
  tag := rfl
  scales := List.prefix_rfl
  units := List.prefix_rfl
  conversions := List.prefix_append _ _
  scaleNames _ _ found := found
  unitSymbols _ _ found := found

theorem Addition.grows (added : Addition r later) : r.Grows later := by
  cases added with
  | baseScale name symbol free => exact grows_withScale free
  | derivedScale name symbol derivation free => exact grows_withScale free
  | scaledUnit symbol scale factor free => exact grows_withUnit free
  | alternative symbol e free => exact grows_withUnit free
  | conversion c => exact grows_withConversion c

/-! ### Any number of additions -/

theorem Extends.grows (path : r.Extends later) : r.Grows later := by
  refine path.keeps (motive := fun after => r.Grows after) ?_ (refl_of Grows r)
  intro before after grown added
  exact trans_of Grows grown added.grows

theorem grows_declared (r : Registry) (d : Declaration) : r.Grows (r.declared d) :=
  (extends_declared r d).grows

/-! ### Identifiers that have been given out -/

namespace Grows

theorem getElem?_of_prefix {β : Type} {items more : List β} {index : Nat} {item : β}
    (first : items <+: more) (entry : items[index]? = some item) : more[index]? = some item := by
  obtain ⟨bound, rfl⟩ := List.getElem?_eq_some_iff.mp entry
  exact List.prefix_iff_getElem?.mp first index bound

theorem scale? (grows : r.Grows later) {id : ScaleId} {scale : Scale}
    (found : r.scale? id = some scale) : later.scale? id = some scale := by
  obtain ⟨own, entry⟩ := scale?_eq_some_iff.mp found
  exact scale?_eq_some_iff.mpr ⟨own.trans grows.tag.symm, getElem?_of_prefix grows.scales entry⟩

theorem unit? (grows : r.Grows later) {id : UnitId} {unit : NamedUnit}
    (found : r.unit? id = some unit) : later.unit? id = some unit := by
  obtain ⟨own, entry⟩ := unit?_eq_some_iff.mp found
  exact unit?_eq_some_iff.mpr ⟨own.trans grows.tag.symm, getElem?_of_prefix grows.units entry⟩

theorem hasScale (grows : r.Grows later) {id : ScaleId} (known : r.HasScale id) :
    later.HasScale id := by
  obtain ⟨scale, found⟩ := known
  exact ⟨scale, grows.scale? found⟩

theorem hasUnit (grows : r.Grows later) {id : UnitId} (known : r.HasUnit id) :
    later.HasUnit id := by
  obtain ⟨unit, found⟩ := known
  exact ⟨unit, grows.unit? found⟩

theorem isScaledUnit (grows : r.Grows later) {id : UnitId} (scaled : r.IsScaledUnit id) :
    later.IsScaledUnit id := by
  obtain ⟨symbol, scale, factor, found⟩ := scaled
  exact ⟨symbol, scale, factor, grows.unit? found⟩

end Grows

end Metrology.Registry
