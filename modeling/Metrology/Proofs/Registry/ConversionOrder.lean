import Metrology.Proofs.Registry.Series
import Metrology.Proofs.Registry.Transforms

/-!
# The order of conversions does not matter

A conversion is accepted if it is sound by itself (`Admits`) and apart from all conversions that
are there (`addConversion_eq_ok_iff`). Being apart is symmetric, so that a series of conversions is
accepted just if all of them are admitted and they are apart from each other and from what was
there before (`conversions_eq_ok_iff`), and nothing in this depends on the order of the series. Nor
does a search for a transform depend on the order of conversions that are apart.
-/
namespace Metrology

namespace Registry

variable {r after : Registry} {c : ScaleConversion} {f t : ScaleId}

/-! ### When one conversion is accepted -/

/-- The same registry with other conversions. -/
def withConversions (r : Registry) (cs : List ScaleConversion) : Registry :=
  { r with conversions := cs }

/-- What is asked of a conversion whatever other conversions there are. -/
structure Admits (r : Registry) (c : ScaleConversion) : Prop where
  sourceKnown : r.HasScale c.source
  targetKnown : r.HasScale c.target
  distinct : c.source ≠ c.target
  invertible : c.forward.isInvertible = true
  invertibleBack : c.backward.any (!·.isInvertible) = false

theorem transform?_source_target (c : ScaleConversion) :
    c.transform? c.source c.target = some c.forward := by
  simp [ScaleConversion.transform?]

theorem transform?_target_source (distinct : c.source ≠ c.target) :
    c.transform? c.target c.source = c.backward := by
  simp [ScaleConversion.transform?, distinct.symm]

/-- A conversion that is apart from all others finds its ordered pairs of scales free. -/
theorem free_of_apart (apart : ∀ d ∈ r.conversions, Apart d c) {affine : Affine Float}
    (own : c.transform? f t = some affine) : r.hasTransform f t = false := by
  refine List.any_eq_false.mpr fun d member => ?_
  have free := apart d member f t
  simp [own] at free
  simp [free]

theorem addConversion_eq_ok_iff :
    r.addConversion c.source c.target c.forward c.backward = .ok after ↔
      r.Admits c ∧ (∀ d ∈ r.conversions, Apart d c) ∧ after = r.withConversion c := by
  constructor
  · intro accepted
    obtain ⟨⟨sourceKnown, targetKnown, distinct, invertible, invertibleBack, free, freeBack⟩, same⟩ :=
      addConversion_eq_ok accepted
    exact ⟨⟨sourceKnown, targetKnown, distinct, invertible, invertibleBack⟩,
      fun d member => apart_of_free member free freeBack, same⟩
  · rintro ⟨⟨⟨source, sourceFound⟩, ⟨target, targetFound⟩, distinct, invertible, invertibleBack⟩,
      apart, rfl⟩
    have sourceNamed := scaleName_eq_ok_iff.mpr ⟨source, sourceFound, rfl⟩
    have targetNamed := scaleName_eq_ok_iff.mpr ⟨target, targetFound, rfl⟩
    have free := free_of_apart apart (transform?_source_target c)
    -- The way back is looked at only if there is one.
    have freeBack : (c.backward.isSome && r.hasTransform c.target c.source) = false := by
      cases back : c.backward with
      | none => rfl
      | some affine => exact free_of_apart apart ((transform?_target_source distinct).trans back)
    simp [addConversion, sourceNamed, targetNamed, distinct, invertible, invertibleBack, free, freeBack,
      bind, Except.bind, pure, Except.pure]

end Registry

namespace Declaring

open Registry

variable {r after : Registry} {cs ds : List ScaleConversion}

/-! ### When a series of conversions is accepted -/

/-- Conversions declared one after another. -/
def conversions (cs : List ScaleConversion) : Declaring (List PUnit) :=
  cs.mapM fun c => conversion c.source c.target c.forward c.backward

theorem conversion_eq_ok_iff {c : ScaleConversion} {result : PUnit} :
    conversion c.source c.target c.forward c.backward r = (.ok result, after) ↔
      r.Admits c ∧ (∀ d ∈ r.conversions, Apart d c) ∧ after = r.withConversion c := by
  rw [conversion, step_eq_ok_iff, ← addConversion_eq_ok_iff]
  cases r.addConversion c.source c.target c.forward c.backward <;> simp [Except.map]

/-- The first of a series is accepted, and the others are accepted after it. -/
theorem conversions_cons_eq_ok_iff {c : ScaleConversion} :
    (∃ results, conversions (c :: cs) r = (.ok results, after)) ↔
      (r.Admits c ∧ ∀ d ∈ r.conversions, Apart d c) ∧
        ∃ results, conversions cs (r.withConversion c) = (.ok results, after) := by
  constructor
  · rintro ⟨results, done⟩
    obtain ⟨first, middle, others, accepted, rest, -⟩ := mapM_cons_eq_ok_iff.mp done
    obtain ⟨admitted, apart, rfl⟩ := conversion_eq_ok_iff.mp accepted
    exact ⟨⟨admitted, apart⟩, others, rest⟩
  · rintro ⟨⟨admitted, apart⟩, others, rest⟩
    have accepted : conversion c.source c.target c.forward c.backward r = (.ok ⟨⟩, r.withConversion c) :=
      conversion_eq_ok_iff.mpr ⟨admitted, apart, rfl⟩
    exact ⟨⟨⟩ :: others, mapM_cons_eq_ok_iff.mpr ⟨⟨⟩, _, others, accepted, rest, rfl⟩⟩

/-- A series is accepted just if each conversion is admitted and all are apart. -/
theorem conversions_eq_ok_iff : (∃ results, conversions cs r = (.ok results, after)) ↔
    (∀ c ∈ cs, r.Admits c) ∧ (∀ c ∈ cs, ∀ d ∈ r.conversions, Apart d c) ∧ cs.Pairwise Apart ∧
      after = r.withConversions (r.conversions ++ cs) := by
  induction cs generalizing r with
  | nil =>
    simp [conversions, pure_eq_ok_iff, withConversions]
  | cons c cs ih =>
    -- Whether a conversion is admitted depends on the scales only.
    have kept : ∀ d, (r.withConversion c).Admits d ↔ r.Admits d := fun d =>
      ⟨fun ⟨source, target, distinct, invertible, back⟩ =>
          ⟨source, target, distinct, invertible, back⟩,
        fun ⟨source, target, distinct, invertible, back⟩ =>
          ⟨source, target, distinct, invertible, back⟩⟩
    have there : ∀ d, d ∈ (r.withConversion c).conversions ↔ d ∈ r.conversions ∨ d = c := fun d => by
      simp [withConversion]
    have longer : (r.withConversion c).withConversions ((r.withConversion c).conversions ++ cs) =
        r.withConversions (r.conversions ++ c :: cs) := by simp [withConversion, withConversions]
    rw [conversions_cons_eq_ok_iff, ih, longer, List.pairwise_cons]
    simp only [kept, there, List.forall_mem_cons, or_imp, forall_and, forall_eq]
    tauto

/-- A series that is accepted is accepted in every order. -/
theorem exists_conversions_eq_ok (permuted : cs.Perm ds) {results : List PUnit}
    (done : conversions cs r = (.ok results, after)) :
    ∃ others, conversions ds r = (.ok others, r.withConversions (r.conversions ++ ds)) := by
  obtain ⟨admitted, apart, exclusive, -⟩ := conversions_eq_ok_iff.mp ⟨results, done⟩
  refine conversions_eq_ok_iff.mpr ⟨?_, ?_, permuted.pairwise exclusive (Std.Symm.symm _ _), rfl⟩
  · exact fun c member => admitted c (permuted.mem_iff.mpr member)
  · exact fun c member => apart c (permuted.mem_iff.mpr member)

end Declaring

namespace Registry

variable {r : Registry} {f t : ScaleId} {cs ds : List ScaleConversion}

/-! ### What a search finds -/

theorem hasTransform_eq_isSome (r : Registry) (f t : ScaleId) :
    r.hasTransform f t = (r.transform? f t).isSome := by
  rw [hasTransform, transform?, List.isSome_findSome?]

/-- Among conversions that are apart, a search finds the same in whichever order. -/
theorem findSome?_transform?_of_perm (permuted : cs.Perm ds) (exclusive : cs.Pairwise Apart) :
    cs.findSome? (·.transform? f t) = ds.findSome? (·.transform? f t) := by
  induction permuted with
  | nil => rfl
  | cons c _ ih =>
    rw [List.findSome?_cons, List.findSome?_cons, ih (List.pairwise_cons.mp exclusive).2]
  | swap c d rest =>
    -- At most one of the first two has a transform for the two scales.
    have apart := (List.pairwise_cons.mp exclusive).1 c (by simp) f t
    rw [List.findSome?_cons, List.findSome?_cons, List.findSome?_cons, List.findSome?_cons]
    rcases apart with none | none
    · rw [none]
    · rw [none]
  | trans first _ ih later =>
    exact (ih exclusive).trans (later (first.pairwise exclusive (Std.Symm.symm _ _)))

/-- At most one of the conversions has a transform for an ordered pair of scales. -/
theorem length_filter_transform?_le (exclusive : cs.Pairwise Apart) (f t : ScaleId) :
    (cs.filter fun c => (c.transform? f t).isSome).length ≤ 1 := by
  induction cs with
  | nil => exact Nat.zero_le 1
  | cons c cs ih =>
    obtain ⟨apart, rest⟩ := List.pairwise_cons.mp exclusive
    by_cases found : (c.transform? f t).isSome = true
    · -- The others are apart from the one that has it.
      have others : cs.filter (fun d => (d.transform? f t).isSome) = [] := by
        refine List.filter_eq_nil_iff.mpr fun d member => ?_
        have free := (apart d member f t).resolve_left (Option.isSome_iff_ne_none.mp found)
        simp [free]
      rw [List.filter_cons_of_pos (by exact found), others]
      exact Nat.le_refl 1
    · rw [List.filter_cons_of_neg (by exact found)]
      exact ih rest

/-! ### What conversions of values depend on -/

/-- Nothing but the transforms that a search finds matters for a route. -/
theorem route_withConversions
    (same : ∀ f t, (r.withConversions cs).transform? f t = r.transform? f t) (source target : Unit) :
    (r.withConversions cs).route source target = r.route source target := by
  have transforming : ∀ f t, (r.withConversions cs).transforming source target f t =
      r.transforming source target f t := by
    intro f t
    rw [Registry.transforming, Registry.transforming, same, hasTransform_eq_isSome, same,
      ← hasTransform_eq_isSome]
    rfl
  have check : ∀ u, (r.withConversions cs).check u = r.check u := fun _ => rfl
  have dimension : ∀ u, (r.withConversions cs).dimension u = r.dimension u := fun _ => rfl
  have scalesOf : ∀ u, (r.withConversions cs).scalesOf u = r.scalesOf u := fun _ => rfl
  have rescaling : ∀ u w, (r.withConversions cs).rescaling u w = r.rescaling u w := fun _ _ => rfl
  have incompatible : ∀ u w, (r.withConversions cs).incompatible u w = r.incompatible u w :=
    fun _ _ => rfl
  simp only [route, transforming, check, dimension, scalesOf, rescaling, incompatible]

theorem convert_withConversions
    (same : ∀ f t, (r.withConversions cs).transform? f t = r.transform? f t) (value : Float)
    (source target : Unit) :
    (r.withConversions cs).convert value source target = r.convert value source target := by
  rw [convert, convert, route_withConversions same]

/-- A registry that has its conversions in another order gives the same answers. -/
theorem convert_withConversions_of_perm (exclusive : r.Exclusive) (permuted : cs.Perm r.conversions)
    (value : Float) (source target : Unit) :
    (r.withConversions cs).convert value source target = r.convert value source target := by
  refine convert_withConversions (fun f t => ?_) value source target
  exact (findSome?_transform?_of_perm permuted.symm exclusive).symm

/-- Conversions that are added in another order, after the same ones, give the same answers. -/
theorem convert_append_of_perm (exclusive : cs.Pairwise Apart) (permuted : cs.Perm ds) (value : Float)
    (source target : Unit) :
    (r.withConversions (r.conversions ++ ds)).convert value source target =
      (r.withConversions (r.conversions ++ cs)).convert value source target := by
  refine convert_withConversions (r := r.withConversions (r.conversions ++ cs)) (fun f t => ?_) value
    source target
  change (r.conversions ++ ds).findSome? _ = (r.conversions ++ cs).findSome? _
  rw [List.findSome?_append, List.findSome?_append, findSome?_transform?_of_perm permuted exclusive]

/-! ### Main result -/

/-- There is at most one transform for each ordered pair of scales, so that conversions of values do
not depend on the order in which the conversions of scales are kept; and conversions of scales that
are accepted in one order are accepted in every order, with the same answers afterwards. -/
theorem conversions_in_any_order :
    (∀ r : Registry, r.Reachable →
      (∀ f t, (r.conversions.filter fun c => (c.transform? f t).isSome).length ≤ 1) ∧
      ∀ cs, cs.Perm r.conversions → ∀ value source target,
        (r.withConversions cs).convert value source target = r.convert value source target) ∧
    ∀ (r : Registry) (cs ds : List ScaleConversion), cs.Perm ds → ∀ results after,
      Declaring.conversions cs r = (.ok results, after) →
      ∃ others later, Declaring.conversions ds r = (.ok others, later) ∧
        ∀ value source target,
          later.convert value source target = after.convert value source target := by
  constructor
  · intro r reachable
    exact ⟨length_filter_transform?_le reachable.exclusive, fun _ permuted =>
      convert_withConversions_of_perm reachable.exclusive permuted⟩
  · intro r cs ds permuted results after done
    obtain ⟨-, -, exclusive, rfl⟩ := Declaring.conversions_eq_ok_iff.mp ⟨results, done⟩
    obtain ⟨others, accepted⟩ := Declaring.exists_conversions_eq_ok permuted done
    exact ⟨others, _, accepted, convert_append_of_perm exclusive permuted⟩

/-- Temperatures on three scales that nothing has been declared between. -/
def temperatures : Registry :=
  let celsius := ((empty 0).declared (.scale "kelvin" "Θ")).declared (.scale "celsius" "Θ°C")
  let scales := celsius.declared (.scale "fahrenheit" "Θ°F")
  (scales.declared (.unit "K" ⟨0, 0⟩ 1 1)).declared (.unit "°C" ⟨0, 1⟩ 1 1)

/-- Both ways between kelvins and degrees Celsius may be declared apart from each other, and before or
after what leads to degrees Fahrenheit. -/
theorem temperatures_in_any_order :
    let cool : ScaleConversion := ⟨⟨0, 0⟩, ⟨0, 1⟩, .shift (-273.15), none⟩
    let leave : ScaleConversion := ⟨⟨0, 1⟩, ⟨0, 2⟩, ⟨1.8, 32⟩, some ⟨0.5, -16⟩⟩
    let warm : ScaleConversion := ⟨⟨0, 1⟩, ⟨0, 0⟩, .shift 273.15, none⟩
    ∃ results after others later,
      Declaring.conversions [cool, leave, warm] temperatures = (.ok results, after) ∧
      Declaring.conversions [warm, leave, cool] temperatures = (.ok others, later) ∧
      (∀ value, later.convert value ⟨.single ⟨0, 1⟩⟩ ⟨.single ⟨0, 0⟩⟩ =
        after.convert value ⟨.single ⟨0, 1⟩⟩ ⟨.single ⟨0, 0⟩⟩) ∧
      (oneWay.conversions.filter fun c => (c.transform? ⟨0, 0⟩ ⟨0, 1⟩).isSome).length ≤ 1 := by
  intro cool leave warm
  have reachable : temperatures.Reachable :=
    .declared (.declared (.declared (.declared (.declared (.empty 0) _) _) _) _) _
  -- Declared one after another they are accepted, so that they are apart.
  let first := temperatures.declared (.conversion ⟨0, 0⟩ ⟨0, 1⟩ (.shift (-273.15)) none)
  let second := first.declared (.conversion ⟨0, 1⟩ ⟨0, 2⟩ ⟨1.8, 32⟩ (some ⟨0.5, -16⟩))
  let third := second.declared (.conversion ⟨0, 1⟩ ⟨0, 0⟩ (.shift 273.15) none)
  have declared : third.Reachable := .declared (.declared (.declared reachable _) _) _
  have exclusive : [cool, leave, warm].Pairwise Apart := declared.exclusive
  have admitted : ∀ c ∈ [cool, leave, warm], temperatures.Admits c := by
    simp only [List.forall_mem_cons, List.not_mem_nil, false_imp_iff, implies_true, and_true]
    exact ⟨⟨⟨_, rfl⟩, ⟨_, rfl⟩, by decide, by decide +kernel, by decide +kernel⟩,
      ⟨⟨_, rfl⟩, ⟨_, rfl⟩, by decide, by decide +kernel, by decide +kernel⟩,
      ⟨⟨_, rfl⟩, ⟨_, rfl⟩, by decide, by decide +kernel, by decide +kernel⟩⟩
  obtain ⟨results, done⟩ := Declaring.conversions_eq_ok_iff.mpr
    ⟨admitted, fun _ _ _ member => (nomatch member), exclusive, rfl⟩
  have permuted : [cool, leave, warm].Perm [warm, leave, cool] := List.reverse_perm _ |>.symm
  obtain ⟨others, later, accepted, same⟩ := conversions_in_any_order.2 _ _ _ permuted _ _ done
  have known : oneWay.Reachable :=
    .declared (.declared (.declared (.declared (.declared (.empty 0) _) _) _) _) _
  exact ⟨results, _, others, later, done, accepted, fun value => same value _ _,
    (conversions_in_any_order.1 _ known).1 _ _⟩

end Registry

end Metrology
