import Mathlib.Algebra.Order.Positive.Field
import Metrology.Proofs.Registry.Measuring
import Metrology.Proofs.Scalar

/-!
# What units are worth

An elementary unit is worth a positive rational number: the product of the powers of the factors of
its parts. The exact factor is this number where it fits, and the factors of the parts make it up
where it does not; either way a value is brought to base units by multiplying with it and back by
dividing by it (`Elementary.scaling_exact`).
-/
namespace Metrology

/-- A positive rational number. -/
abbrev Worth := {q : Rat // 0 < q}

namespace Registry

open Composite

/-- The worth of a named unit; of no interest for an alternative name, which has none of its own. -/
def worthAt (r : Registry) (id : UnitId) : Worth :=
  match r.factorOf id with
  | .ok factor => if positive : 0 < factor then ⟨factor, positive⟩ else 1
  | .error _ => 1

/-- The worth of a unit in base units of its scales. -/
def worth (r : Registry) (u : Unit) : Worth := eval r.worthAt u.composite

variable {r : Registry} {u : Unit}

theorem coe_prod_zpow (f : UnitId → Worth) (parts : List (UnitId × Int)) :
    ((parts.map fun part => f part.1 ^ part.2).prod : Worth).val
      = (parts.map fun part => (f part.1).val ^ part.2).prod := by
  induction parts with
  | nil => rfl
  | cons part parts ih =>
    rw [List.map_cons, List.prod_cons, List.map_cons, List.prod_cons, Positive.val_mul, ih,
      Positive.coe_zpow]

theorem worth_ne_zero (r : Registry) (u : Unit) : (r.worth u).val ≠ 0 := (r.worth u).property.ne'

theorem worth_eq_prod (r : Registry) (u : Unit) :
    (r.worth u).val = (u.composite.entries.map fun part => (r.worthAt part.1).val ^ part.2).prod :=
  coe_prod_zpow r.worthAt u.composite.entries

/-! ### Exact factors -/

theorem IsScaledUnit.factorOf_eq (wf : r.WellFormed) {id : UnitId} (scaled : r.IsScaledUnit id) :
    r.factorOf id = .ok (r.worthAt id).val := by
  obtain ⟨symbol, scale, factor, found⟩ := scaled
  obtain ⟨-, positive, -⟩ := wf.scaled id symbol scale factor found
  rw [worthAt, factorOf_eq_ok found]
  simp only [positive, ↓reduceDIte]

/-- A step of the product is exact. -/
theorem eq_of_timesPart (wf : r.WellFormed) {product next : Factor} {part : UnitId × Int}
    (scaled : r.IsScaledUnit part.1) (done : r.timesPart u product part = .ok next) :
    next = product * (r.worthAt part.1).val ^ part.2 := by
  simp only [timesPart, scaled.factorOf_eq wf, bind_ok] at done
  split at done
  next result found =>
    obtain rfl := Except.ok.inj done
    obtain ⟨power, raised, multiplied⟩ := Option.bind_eq_some_iff.mp found
    rw [(Factor.mul?_eq_some_iff.mp multiplied).1, Factor.eq_zpow_of_powi? raised]
  · cases done

theorem eq_of_foldlM_timesPart (wf : r.WellFormed) {parts : List (UnitId × Int)}
    (scaled : ∀ part ∈ parts, r.IsScaledUnit part.1) {product factor : Factor}
    (done : parts.foldlM (r.timesPart u) product = .ok factor) :
    factor = product * (parts.map fun part => (r.worthAt part.1).val ^ part.2).prod := by
  induction parts generalizing product with
  | nil =>
    obtain rfl : product = factor := Except.ok.inj done
    rw [List.map_nil, List.prod_nil, mul_one]
  | cons part parts ih =>
    rw [List.foldlM_cons] at done
    obtain ⟨next, step, rest⟩ := bind_eq_ok.mp done
    rw [ih (fun other member => scaled other (by simp [member])) rest,
      eq_of_timesPart wf (scaled part (by simp)) step, List.map_cons, List.prod_cons, mul_assoc]

theorem Elementary.factor_eq_worth (wf : r.WellFormed) (elementary : r.Elementary u)
    {factor : Factor} (exact : r.factor u = .ok factor) : factor = (r.worth u).val := by
  obtain ⟨⟨⟩, -, done⟩ := bind_eq_ok.mp exact
  rw [eq_of_foldlM_timesPart wf (fun part member => elementary.of_mem member) done, one_mul,
    worth_eq_prod]

/-! ### Factors of parts -/

/-- The powers are multiplied one after the other. -/
theorem foldl_powi (factors : List (Factor × Int)) (product : Rat) :
    factors.foldl (fun product part => product * Scalar.powi (Factor.toScalar part.1) part.2) product
      = product * (factors.map fun part => part.1 ^ part.2).prod := by
  induction factors generalizing product with
  | nil => rw [List.foldl_nil, List.map_nil, List.prod_nil, mul_one]
  | cons part factors ih =>
    rw [List.foldl_cons, ih, Scalar.powi_eq_zpow, Factor.toScalar_eq, List.map_cons, List.prod_cons,
      mul_assoc]

theorem Elementary.product_eq_worth (wf : r.WellFormed) (elementary : r.Elementary u)
    {factors : List (Factor × Int)} (parts : r.factors u = .ok factors) :
    (Scaling.product factors : Rat) = (r.worth u).val := by
  have each : ∀ entry ∈ u.composite.entries,
      (do return (← r.factorOf entry.1, entry.2) : Except UnitError (Factor × Int))
        = .ok ((r.worthAt entry.1).val, entry.2) := by
    intro entry member
    rw [(elementary.of_mem member).factorOf_eq wf]
    rfl
  obtain rfl := Except.ok.inj (parts.symm.trans (mapM_eq_ok_map each))
  rw [Scaling.product, foldl_powi, List.map_map, Scalar.ofInt_eq_cast, Int.cast_one, one_mul,
    worth_eq_prod]
  rfl

/-! ### Scalings and ratios -/

/-- Whichever way a value is brought to base units and back, it is multiplied with the worth of the
unit and divided by it. -/
theorem Elementary.scaling_exact (wf : r.WellFormed) (elementary : r.Elementary u) {scaling : Scaling}
    (found : r.scaling u = .ok scaling) (value : Rat) :
    scaling.toBase value = value * (r.worth u).val ∧
      scaling.fromBase value = value / (r.worth u).val := by
  rw [Registry.scaling] at found
  split at found
  next factor exact =>
    obtain rfl := Except.ok.inj found
    rw [← elementary.factor_eq_worth wf exact]
    exact ⟨Factor.apply_eq_mul factor value, Factor.unapply_eq_div factor value⟩
  next =>
    -- The exact factor does not fit, and the parts are multiplied one by one.
    obtain ⟨factors, parts, same⟩ := bind_eq_ok.mp found
    obtain rfl := Except.ok.inj same
    rw [← elementary.product_eq_worth wf parts]
    exact ⟨rfl, rfl⟩
  next => cases found

theorem Elementary.ratio_exact (wf : r.WellFormed) {target : Unit} (source : r.Elementary u)
    (toTarget : r.Elementary target) {ratio : Factor} (found : r.ratio u target = .ok ratio) :
    ratio = (r.worth u).val / (r.worth target).val := by
  obtain ⟨sourceFactor, atSource, rest⟩ := bind_eq_ok.mp found
  obtain ⟨targetFactor, atTarget, rest⟩ := bind_eq_ok.mp rest
  rw [← source.factor_eq_worth wf atSource, ← toTarget.factor_eq_worth wf atTarget]
  split at rest
  next quotient divided =>
    obtain rfl := Except.ok.inj rest
    exact (Factor.div?_eq_some_iff.mp divided).2.1
  · cases rest

end Registry

end Metrology
