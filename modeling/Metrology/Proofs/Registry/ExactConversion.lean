import Metrology.Decimal.Binary
import Metrology.Proofs.Registry.Transforms
import Metrology.Proofs.Registry.Worth

/-!
# Conversion in exact arithmetic

A route can be run on rationals, its transform read as the exact numbers that it is made of. Then
it does not matter by which factors values go between units of one dimension, so that conversions
can be chained and undone (`exact_conversions_cohere`). Between two scales the way there and back
leads to where it began if the two transforms do, whatever the units are worth.
-/
namespace Metrology

namespace Registry

/-- Convert an exact value along the route that a floating-point one would take. -/
def convertExactly (r : Registry) (value : Rat) (source target : Unit) : Except UnitError Rat := do
  return ((← r.route source target).map Decimal.exact).run value

variable {r : Registry} {source target : Unit} {way : Route Float} {f t : ScaleId}
  {forward backward : Affine Float}

theorem convertExactly_eq_ok (found : r.route source target = .ok way) (value : Rat) :
    r.convertExactly value source target = .ok ((way.map Decimal.exact).run value) := by
  rw [convertExactly, found]
  rfl

/-- Between convertible units there is a route, and the dimensions tell of which kind it is. -/
theorem Convertible.exists_route (convertible : r.Convertible source target) (wf : r.WellFormed)
    (fromSource : r.Elementary source) (toTarget : r.Elementary target) :
    ∃ way, r.route source target = .ok way ∧
      ((r.dimension source = r.dimension target ∧ r.ByFactors source target way) ∨
        (r.dimension source ≠ r.dimension target ∧ r.ByTransform source target way)) := by
  rcases route_cases wf fromSource toTarget with ⟨-, found⟩ | ⟨refused, -⟩ | ⟨refused, -⟩
  · exact found
  · exact absurd convertible refused
  · exact absurd convertible refused

/-! ### Units of one dimension -/

/-- All routes on which no transform is met are the same map. -/
theorem ByFactors.run_eq (byFactors : r.ByFactors source target way) (wf : r.WellFormed)
    (fromSource : r.Elementary source) (toTarget : r.Elementary target) (value : Rat) :
    (way.map Decimal.exact).run value = value * (r.worth source).val / (r.worth target).val := by
  rcases byFactors with ⟨rfl, rfl⟩ | ⟨ratio, found, rfl⟩ | ⟨toBase, fromBase, first, second, rfl⟩
  · -- The value is left alone, and the unit is worth as much as itself.
    exact (mul_div_cancel_right₀ value (worth_ne_zero r source)).symm
  · change ratio.apply value = _
    rw [Factor.apply_eq_mul, fromSource.ratio_exact wf toTarget found, mul_div_assoc]
  · change fromBase.fromBase (toBase.toBase value) = _
    rw [(fromSource.scaling_exact wf first value).1, (toTarget.scaling_exact wf second _).2]

theorem convertExactly_of_dimension_eq (wf : r.WellFormed) (fromSource : r.Elementary source)
    (toTarget : r.Elementary target) (alike : r.dimension source = r.dimension target)
    (value : Rat) : r.convertExactly value source target
      = .ok (value * (r.worth source).val / (r.worth target).val) := by
  have convertible : r.Convertible source target := .inl alike
  obtain ⟨way, found, means⟩ := convertible.exists_route wf fromSource toTarget
  rcases means with ⟨-, byFactors⟩ | ⟨differ, -⟩
  · rw [convertExactly_eq_ok found, byFactors.run_eq wf fromSource toTarget]
  · exact absurd alike differ

/-! ### Units of two scales -/

/-- The transform that has been declared is applied to values in base units. -/
theorem ByTransform.run_eq (byTransform : r.ByTransform source target way) (wf : r.WellFormed)
    (exclusive : r.Exclusive) (fromSource : r.Elementary source) (toTarget : r.Elementary target)
    (atSource : r.scalesOf source = .ok (.single f)) (atTarget : r.scalesOf target = .ok (.single t))
    (declared : r.TransformsBy f t forward) (value : Rat) :
    (way.map Decimal.exact).run value = (forward.map Decimal.exact).apply
      (value * (r.worth source).val) / (r.worth target).val := by
  obtain ⟨g, s, toBase, affine, fromBase, sourceScale, targetScale, other, first, second, rfl⟩ :=
    byTransform
  -- The route has been made of these scales and, as there is no other, of this transform.
  obtain rfl := eq_of_scalesOf_single atSource sourceScale
  obtain rfl := eq_of_scalesOf_single atTarget targetScale
  have here := exclusive.transform?_eq_some_iff.mpr declared
  have there := exclusive.transform?_eq_some_iff.mpr other
  obtain rfl : forward = affine := Option.some.inj (here.symm.trans there)
  change fromBase.fromBase ((forward.map Decimal.exact).apply (toBase.toBase value)) = _
  rw [(fromSource.scaling_exact wf first value).1, (toTarget.scaling_exact wf second _).2]

theorem convertExactly_of_transformsBy (wf : r.WellFormed) (exclusive : r.Exclusive)
    (fromSource : r.Elementary source) (toTarget : r.Elementary target)
    (differ : r.dimension source ≠ r.dimension target)
    (atSource : r.scalesOf source = .ok (.single f)) (atTarget : r.scalesOf target = .ok (.single t))
    (declared : r.TransformsBy f t forward) (value : Rat) :
    r.convertExactly value source target = .ok ((forward.map Decimal.exact).apply
      (value * (r.worth source).val) / (r.worth target).val) := by
  have transforms : r.Transforms f t := declared.imp fun c => And.imp_right (⟨forward, ·⟩)
  have convertible : r.Convertible source target := .inr ⟨f, t, atSource, atTarget, transforms⟩
  obtain ⟨way, found, means⟩ := convertible.exists_route wf fromSource toTarget
  rcases means with ⟨alike, -⟩ | ⟨-, byTransform⟩
  · exact absurd alike differ
  · rw [convertExactly_eq_ok found,
      byTransform.run_eq wf exclusive fromSource toTarget atSource atTarget declared]

/-- If the transforms lead back, so do the conversions. -/
theorem convertExactly_back (wf : r.WellFormed) (exclusive : r.Exclusive)
    (fromSource : r.Elementary source) (toTarget : r.Elementary target)
    (atSource : r.scalesOf source = .ok (.single f)) (atTarget : r.scalesOf target = .ok (.single t))
    (there : r.TransformsBy f t forward) (back : r.TransformsBy t f backward)
    (undone : ∀ x, (backward.map Decimal.exact).apply ((forward.map Decimal.exact).apply x) = x)
    (value : Rat) :
    ∃ result, r.convertExactly value source target = .ok result ∧
      r.convertExactly result target source = .ok value := by
  by_cases alike : r.dimension source = r.dimension target
  · refine ⟨_, convertExactly_of_dimension_eq wf fromSource toTarget alike value, ?_⟩
    rw [convertExactly_of_dimension_eq wf toTarget fromSource alike.symm,
      div_mul_cancel₀ _ (worth_ne_zero r target), mul_div_cancel_right₀ _ (worth_ne_zero r source)]
  · refine ⟨_, convertExactly_of_transformsBy wf exclusive fromSource toTarget alike atSource
      atTarget there value, ?_⟩
    rw [convertExactly_of_transformsBy wf exclusive toTarget fromSource (Ne.symm alike) atTarget
      atSource back, div_mul_cancel₀ _ (worth_ne_zero r target), undone,
      mul_div_cancel_right₀ _ (worth_ne_zero r source)]

/-! ### Main result -/

/-- In exact arithmetic, conversions between units of one dimension can be chained and undone, and
so can conversions between units of two scales if the transforms undo each other. -/
theorem exact_conversions_cohere {a b c : Unit} (reachable : r.Reachable) (builtA : Built r a)
    (builtB : Built r b) (builtC : Built r c) :
    (r.dimension a = r.dimension b → r.dimension b = r.dimension c → ∀ value : Rat,
      ∃ middle result, r.convertExactly value a b = .ok middle ∧
        r.convertExactly middle b c = .ok result ∧ r.convertExactly value a c = .ok result ∧
        r.convertExactly middle b a = .ok value) ∧
    ∀ f t forward backward, r.TransformsBy f t forward → r.TransformsBy t f backward →
      (∀ x, (backward.map Decimal.exact).apply ((forward.map Decimal.exact).apply x) = x) →
      r.scalesOf a = .ok (.single f) ∧ r.scalesOf b = .ok (.single t) ∨
        r.scalesOf a = .ok (.single t) ∧ r.scalesOf b = .ok (.single f) →
      ∀ value : Rat, ∃ middle, r.convertExactly value a b = .ok middle ∧
        r.convertExactly middle b a = .ok value := by
  have wf := reachable.wellFormed
  have ofA := builtA.elementary
  have ofB := builtB.elementary
  have ofC := builtC.elementary
  constructor
  · intro alike alikeC value
    refine ⟨_, _, convertExactly_of_dimension_eq wf ofA ofB alike value,
      convertExactly_of_dimension_eq wf ofB ofC alikeC _, ?_, ?_⟩
    · rw [convertExactly_of_dimension_eq wf ofA ofC (alike.trans alikeC),
        div_mul_cancel₀ _ (worth_ne_zero r b)]
    · rw [convertExactly_of_dimension_eq wf ofB ofA alike.symm,
        div_mul_cancel₀ _ (worth_ne_zero r b), mul_div_cancel_right₀ _ (worth_ne_zero r a)]
  · rintro f t forward backward there back undone (⟨atA, atB⟩ | ⟨atA, atB⟩) value
    · exact convertExactly_back wf reachable.exclusive ofA ofB atA atB there back undone value
    · exact convertExactly_back wf reachable.exclusive ofA ofB atA atB back there
        (Affine.apply_apply_comm undone) value

/-- Temperatures on two scales, in kelvins, millikelvins and degrees Celsius. -/
def thermal : Registry :=
  let scales := ((empty 0).declared (.scale "kelvin" "Θ")).declared (.scale "celsius" "Θ°C")
  let kelvins := (scales.declared (.unit "K" ⟨0, 0⟩ 1 1)).declared (.unit "mK" ⟨0, 0⟩ 1 1000)
  let units := kelvins.declared (.unit "°C" ⟨0, 1⟩ 1 1)
  units.declared (.conversion ⟨0, 0⟩ ⟨0, 1⟩ (.shift (-273.15)) (some (.shift 273.15)))

/-- The twentieth power of a millikelvin has no exact factor, and there is still a way there and
back; between degrees Celsius and millikelvins the way is through kelvins. -/
theorem thermal_conversions_cohere :
    thermal.factor ⟨.ofList [(⟨0, 1⟩, 20)]⟩ = .error (.factorOverflow "mK²⁰") ∧
      (∃ middle result,
        thermal.convertExactly 5 ⟨.ofList [(⟨0, 1⟩, 20)]⟩ ⟨.ofList [(⟨0, 0⟩, 20)]⟩ = .ok middle ∧
        thermal.convertExactly middle ⟨.ofList [(⟨0, 0⟩, 20)]⟩
          ⟨.ofList [(⟨0, 0⟩, 19), (⟨0, 1⟩, 1)]⟩ = .ok result ∧
        thermal.convertExactly 5 ⟨.ofList [(⟨0, 1⟩, 20)]⟩
          ⟨.ofList [(⟨0, 0⟩, 19), (⟨0, 1⟩, 1)]⟩ = .ok result ∧
        thermal.convertExactly middle ⟨.ofList [(⟨0, 0⟩, 20)]⟩ ⟨.ofList [(⟨0, 1⟩, 20)]⟩ = .ok 5) ∧
      ∃ middle, thermal.convertExactly 5 ⟨.single ⟨0, 2⟩⟩ ⟨.single ⟨0, 1⟩⟩ = .ok middle ∧
        thermal.convertExactly middle ⟨.single ⟨0, 1⟩⟩ ⟨.single ⟨0, 2⟩⟩ = .ok 5 := by
  have reachable : thermal.Reachable :=
    .declared (.declared (.declared (.declared (.declared (.declared (.empty 0) _) _) _) _) _) _
  have built : ∀ {text u}, thermal.parseUnit text = .ok u → Built thermal u := .parsed reachable
  -- Each fact about the six declarations is computed.
  have small : Built thermal ⟨.ofList [(⟨0, 1⟩, 20)]⟩ :=
    built (show thermal.parseUnit "mK²⁰" = _ by decide +kernel)
  have large : Built thermal ⟨.ofList [(⟨0, 0⟩, 20)]⟩ :=
    built (show thermal.parseUnit "K²⁰" = _ by decide +kernel)
  have mixed : Built thermal ⟨.ofList [(⟨0, 0⟩, 19), (⟨0, 1⟩, 1)]⟩ :=
    built (show thermal.parseUnit "K¹⁹·mK" = _ by decide +kernel)
  have celsius : Built thermal ⟨.single ⟨0, 2⟩⟩ :=
    built (show thermal.parseUnit "°C" = _ by decide +kernel)
  have milli : Built thermal ⟨.single ⟨0, 1⟩⟩ :=
    built (show thermal.parseUnit "mK" = _ by decide +kernel)
  have conversions : thermal.conversions
      = [⟨⟨0, 0⟩, ⟨0, 1⟩, .shift (-273.15), some (.shift 273.15)⟩] := rfl
  have there : thermal.TransformsBy ⟨0, 0⟩ ⟨0, 1⟩ (.shift (-273.15)) :=
    ⟨_, conversions ▸ List.mem_singleton_self _, rfl⟩
  have back : thermal.TransformsBy ⟨0, 1⟩ ⟨0, 0⟩ (.shift 273.15) :=
    ⟨_, conversions ▸ List.mem_singleton_self _, rfl⟩
  have undone : ∀ x, ((Affine.shift 273.15).map Decimal.exact).apply
      (((Affine.shift (-273.15)).map Decimal.exact).apply x) = x := by
    intro x
    have slope : Decimal.exact (Scalar.ofInt 1) = 1 := by decide +kernel
    have offsets : Decimal.exact (-273.15) + Decimal.exact 273.15 = 0 := by decide +kernel
    simp only [Affine.shift, Affine.map, Affine.apply, slope, mul_one]
    rw [add_assoc, offsets, add_zero]
  obtain ⟨cohere, -⟩ := exact_conversions_cohere reachable small large mixed
  obtain ⟨-, lead⟩ := exact_conversions_cohere reachable celsius milli milli
  refine ⟨by decide +kernel, cohere (by decide +kernel) (by decide +kernel) 5, ?_⟩
  exact lead _ _ _ _ there back undone (.inr ⟨by decide +kernel, by decide +kernel⟩) 5

end Registry

end Metrology
