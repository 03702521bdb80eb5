import Metrology.Proofs.Registry.CoherentUnits
import Metrology.Proofs.Registry.Tags

/-!
# Closed catalogs

If every base scale has a unit that is worth one, quantities in all units can be normalised. If
every conversion can be undone, values can be converted back wherever they can be converted. Both
hold of the standard catalog: kilograms are worth one of their scale, and the three scales of
temperatures lead to each other.
-/
namespace Metrology

namespace Registry

variable {r : Registry} {u w : Unit} {f t : ScaleId} {k : Nat}

/-! ### Units for all base scales -/

/-- Every base scale has a unit that is worth one of it. -/
def HasBaseUnits (r : Registry) : Prop :=
  ∀ scale, r.IsBaseScale scale → ∃ id, r.IsBaseUnit scale id

/-- It is enough to search the list of scales. -/
theorem hasBaseUnits_iff : r.HasBaseUnits ↔ ∀ index : Fin r.scales.length,
    r.scales[index].derivation = none → (r.baseUnitOf? ⟨r.tag, index⟩).isSome := by
  have search (scale : ScaleId) :
      (r.baseUnitOf? scale).isSome ↔ ∃ id, r.IsBaseUnit scale id := by
    rw [Option.isSome_iff_ne_none, Ne, baseUnitOf?_eq_none_iff, not_forall_not]
  simp only [search]
  constructor
  · intro each index base
    exact each _ ⟨r.scales[index], scale?_eq_some_iff.mpr ⟨rfl, by simp⟩, base⟩
  · rintro each ⟨registry, index⟩ ⟨scale, found, base⟩
    obtain ⟨rfl, place⟩ := scale?_eq_some_iff.mp found
    obtain ⟨bound, rfl⟩ := List.getElem?_eq_some_iff.mp place
    exact each ⟨index, bound⟩ base

instance : Decidable r.HasBaseUnits := decidable_of_iff _ hasBaseUnits_iff.symm

theorem HasBaseUnits.shift (bases : r.HasBaseUnits) : (r.shift k).HasBaseUnits := by
  rintro ⟨registry, index⟩ ⟨scale, found, base⟩
  obtain ⟨rfl, -⟩ := scale?_eq_some_iff.mp found
  -- The scale is one of the registry, shifted, and so is its unit.
  have here : (r.shift k).scale? (Ident.shift k ⟨r.tag, index⟩) = some scale := found
  rw [scale?_shift] at here
  obtain ⟨original, known, rfl⟩ := Option.map_eq_some_iff.mp here
  obtain ⟨id, symbol, unit⟩ :=
    bases ⟨r.tag, index⟩ ⟨original, known, Option.map_eq_none_iff.mp base⟩
  refine ⟨id.shift k, symbol, ?_⟩
  rw [unit?_shift, unit]
  rfl

/-- Quantities are normalised to units that are worth one. -/
theorem HasBaseUnits.exists_normalize (bases : r.HasBaseUnits) (wf : r.WellFormed)
    (elementary : r.Elementary u) :
    ∃ d, r.dimension u = .ok d ∧ ∀ value, ∃ q, r.normalize ⟨value, u⟩ = .ok q ∧
      r.dimension q.unit = .ok d ∧ r.factor q.unit = .ok 1 := by
  have base := elementary.allAtoms_dimension wf
  have known := base.mono fun _ ⟨scale, found, _⟩ => (⟨scale, found⟩ : r.HasScale _)
  obtain ⟨b, found⟩ := (exists_baseUnit_iff known).mpr fun entry member =>
    bases entry.1 (base.of_mem member)
  have coherent := coherent_of_baseUnit base found
  refine ⟨_, elementary.dimension_eq, fun value => ?_⟩
  obtain ⟨result, normal, -⟩ :=
    coherent.exists_normalize wf found elementary elementary.dimension_eq value
  exact ⟨_, normal, coherent.dimension, coherent.factor⟩

/-! ### Conversions in both directions -/

/-- Every conversion has a transform for the way back. -/
def TwoWay (r : Registry) : Prop := ∀ c ∈ r.conversions, c.backward.isSome

instance : Decidable r.TwoWay := inferInstanceAs (Decidable (∀ c ∈ r.conversions, _))

theorem TwoWay.shift (twoWay : r.TwoWay) : (r.shift k).TwoWay :=
  List.forall_mem_map.mpr twoWay

/-- The pairs of scales that conversions have been declared for. -/
def ends (r : Registry) : List (ScaleId × ScaleId) :=
  r.conversions.map fun c => (c.source, c.target)

theorem ends_shift : (r.shift k).ends = r.ends.map (Prod.map (Ident.shift k) (Ident.shift k)) := by
  rw [ends, Registry.shift, List.map_map, ends, List.map_map]
  rfl

/-- Transforms lead from one end of a conversion to the other. -/
theorem TwoWay.transforms_iff (twoWay : r.TwoWay) :
    r.Transforms f t ↔ (f, t) ∈ r.ends ∨ (t, f) ∈ r.ends := by
  have each : ∀ c ∈ r.conversions, (∃ affine, c.transform? f t = some affine) ↔
      (c.source, c.target) = (f, t) ∨ (c.source, c.target) = (t, f) := by
    intro c member
    obtain ⟨backward, found⟩ := Option.isSome_iff_exists.mp (twoWay c member)
    rw [ScaleConversion.transform?, found, Prod.mk.injEq, Prod.mk.injEq]
    split
    next forth => exact iff_of_true ⟨c.forward, rfl⟩ (.inl ⟨forth.1.symm, forth.2.symm⟩)
    next notForth =>
      split
      next back => exact iff_of_true ⟨backward, rfl⟩ (.inr ⟨back.2.symm, back.1.symm⟩)
      next notBack => exact iff_of_false (by simp) (by grind)
  simp only [ends, List.mem_map, ← exists_or, ← and_or_left]
  exact exists_congr fun c => and_congr_right (each c)

theorem TwoWay.transforms_symm (twoWay : r.TwoWay) (way : r.Transforms f t) : r.Transforms t f := by
  rw [twoWay.transforms_iff] at way ⊢
  exact way.symm

theorem TwoWay.convertible_symm (twoWay : r.TwoWay) (convertible : r.Convertible u w) :
    r.Convertible w u := by
  rcases convertible with alike | ⟨f, t, source, target, way⟩
  · exact .inl alike.symm
  · exact .inr ⟨t, f, target, source, twoWay.transforms_symm way⟩

theorem Elementary.convertible_eq_true_iff (wf : r.WellFormed) (source : r.Elementary u)
    (target : r.Elementary w) : r.convertible u w = true ↔ r.Convertible u w := by
  rcases route_cases wf source target with
    ⟨convertible, route, found, -⟩
    | ⟨refused, f, t, sourceName, targetName, -, -, -, outcome⟩
    | ⟨refused, -, outcome⟩
  · simp [Registry.convertible, found, convertible]
  · simp [Registry.convertible, outcome, refused]
  · simp [Registry.convertible, outcome, refused]

end Registry

/-! ### The standard catalog -/

namespace Catalog

open Registry

variable {tag : Nat} {a b : Unit} {f t : ScaleId}

/-- The scales of temperatures. -/
def temperatures (tag : Nat) : List ScaleId := [⟨tag, 3⟩, ⟨tag, 4⟩, ⟨tag, 5⟩]

/-- A unit of one of the scales of temperatures, with or without a prefix. -/
def Thermal (tag : Nat) (u : Unit) : Prop :=
  ∃ scale ∈ temperatures tag, (standard tag).scalesOf u = .ok (.single scale)

/-- The facts that are computed. They are about the tag zero and carry over to the others. -/
theorem standard_facts : (standard 0).HasBaseUnits ∧ (standard 0).TwoWay ∧
    (standard 0).ends = [(⟨0, 3⟩, ⟨0, 4⟩), (⟨0, 4⟩, ⟨0, 5⟩), (⟨0, 3⟩, ⟨0, 5⟩)] ∧
    (standard 0).tag = 0 := by
  decide +kernel

theorem tag_standard (tag : Nat) : (standard tag).tag = tag := by
  rw [standard_eq_shift, Registry.shift, standard_facts.2.2.2, Nat.zero_add]

theorem hasBaseUnits_standard (tag : Nat) : (standard tag).HasBaseUnits := by
  rw [standard_eq_shift]
  exact standard_facts.1.shift

theorem twoWay_standard (tag : Nat) : (standard tag).TwoWay := by
  rw [standard_eq_shift]
  exact standard_facts.2.1.shift

theorem ends_standard (tag : Nat) : (standard tag).ends =
    [(⟨tag, 3⟩, ⟨tag, 4⟩), (⟨tag, 4⟩, ⟨tag, 5⟩), (⟨tag, 3⟩, ⟨tag, 5⟩)] := by
  rw [standard_eq_shift, ends_shift, standard_facts.2.2.1]
  simp [Ident.shift]

/-- The scales of temperatures, and no others, lead to each other. -/
theorem transforms_standard_iff :
    (standard tag).Transforms f t ↔ f ∈ temperatures tag ∧ t ∈ temperatures tag ∧ f ≠ t := by
  rw [(twoWay_standard tag).transforms_iff, ends_standard]
  simp only [temperatures, List.mem_cons, List.not_mem_nil, or_false, Prod.mk.injEq]
  constructor
  · rintro ((⟨rfl, rfl⟩ | ⟨rfl, rfl⟩ | ⟨rfl, rfl⟩) | ⟨rfl, rfl⟩ | ⟨rfl, rfl⟩ | ⟨rfl, rfl⟩) <;> simp
  · -- Of the nine pairs of scales, six are left.
    rintro ⟨rfl | rfl | rfl, rfl | rfl | rfl, differ⟩ <;> simp at differ ⊢

/-! ### Main result -/

/-- Every unit over the standard catalog has a dimension, in which all its quantities are normalised
to a unit that is worth one. Values can be converted to the unit itself, and back wherever they can
be converted: between units of one dimension and between units of temperatures. -/
theorem standard_catalog_is_closed (left : Built (standard tag) a)
    (right : Built (standard tag) b) :
    (∃ d, (standard tag).dimension a = .ok d ∧
      ∀ value, ∃ q, (standard tag).normalize ⟨value, a⟩ = .ok q ∧
        (standard tag).dimension q.unit = .ok d ∧ (standard tag).factor q.unit = .ok 1) ∧
    (standard tag).convertible a a = true ∧
    (standard tag).convertible a b = (standard tag).convertible b a ∧
    ((standard tag).convertible a b = true ↔
      (standard tag).dimension a = (standard tag).dimension b ∨ Thermal tag a ∧ Thermal tag b) := by
  have wf := (reachable_standard tag).wellFormed
  have first := left.elementary
  have second := right.elementary
  have twoWay := twoWay_standard tag
  refine ⟨(hasBaseUnits_standard tag).exists_normalize wf first,
    (first.convertible_eq_true_iff wf first).mpr (.inl rfl), ?symmetric, ?exactly⟩
  case symmetric =>
    rw [Bool.eq_iff_iff, first.convertible_eq_true_iff wf second,
      second.convertible_eq_true_iff wf first]
    exact ⟨twoWay.convertible_symm, twoWay.convertible_symm⟩
  case exactly =>
    rw [first.convertible_eq_true_iff wf second]
    constructor
    · rintro (alike | ⟨f, t, source, target, way⟩)
      · exact .inl alike
      · obtain ⟨here, there, -⟩ := transforms_standard_iff.mp way
        exact .inr ⟨⟨f, here, source⟩, t, there, target⟩
    · rintro (alike | ⟨⟨f, here, source⟩, t, there, target⟩)
      · exact .inl alike
      · -- No transform leads from a scale to itself, but none is needed.
        by_cases same : f = t
        · subst same
          exact .inl ((dimension_eq_iff source target).mpr rfl)
        · exact .inr ⟨f, t, source, target, transforms_standard_iff.mpr ⟨here, there, same⟩⟩

/-- Millikelvins are converted to degrees Fahrenheit and back. -/
theorem temperatures_convert_both_ways :
    ∃ a b, (standard 0).parseUnit "mK" = .ok a ∧ (standard 0).parseUnit "°F" = .ok b ∧
      (standard 0).convertible a b = true ∧ (standard 0).convertible b a = true := by
  have computed : (standard 0).parseUnit "mK" = .ok ⟨.single ⟨0, 38⟩⟩ ∧
      (standard 0).parseUnit "°F" = .ok ⟨.single ⟨0, 47⟩⟩ ∧
      (standard 0).scalesOf ⟨.single ⟨0, 38⟩⟩ = .ok (.single ⟨0, 3⟩) ∧
      (standard 0).scalesOf ⟨.single ⟨0, 47⟩⟩ = .ok (.single ⟨0, 5⟩) := by
    decide +kernel
  obtain ⟨millikelvin, fahrenheit, inKelvin, inFahrenheit⟩ := computed
  have left := Built.parsed (reachable_standard 0) millikelvin
  have right := Built.parsed (reachable_standard 0) fahrenheit
  obtain ⟨-, -, symmetric, exactly⟩ := standard_catalog_is_closed left right
  have forth := exactly.mpr (.inr ⟨⟨_, by decide, inKelvin⟩, _, by decide, inFahrenheit⟩)
  exact ⟨_, _, millikelvin, fahrenheit, forth, symmetric ▸ forth⟩

end Catalog

end Metrology
