import Mathlib.Algebra.Order.BigOperators.GroupWithZero.List
import Metrology.Proofs.Registry.ExactFactors

/-!
# Factors that are too large

The factor of a unit is multiplied out part by part, and it is missing as soon as a power of a part
or a product of the powers so far does not fit, even if the whole would (`factor_eq_ok_iff`). What
comes later can only bring a number back into range by cancelling. Where nothing cancels, a factor
is missing exactly if it does not fit itself.
-/
namespace Metrology

namespace Factor

variable {f g h : Factor}

/-! ### Products without cancelling -/

/-- Neither numerator has anything in common with the denominator of the other number. -/
def NoCancelling (f g : Factor) : Prop :=
  f.num.natAbs.Coprime g.den ∧ g.num.natAbs.Coprime f.den

theorem NoCancelling.symm (apart : NoCancelling f g) : NoCancelling g f := ⟨apart.2, apart.1⟩

theorem noCancelling_one (f : Factor) : NoCancelling f 1 :=
  ⟨Nat.coprime_one_right _, Nat.coprime_one_left _⟩

theorem NoCancelling.mul (first : NoCancelling f g) (second : NoCancelling f h) :
    NoCancelling f (g * h) := by
  -- The parts of a product divide the products of the parts.
  have num : (g * h).num.natAbs ∣ g.num.natAbs * h.num.natAbs := by
    rw [← Int.natAbs_mul, Rat.num_mul_num_eq_num_mul_gcd g h, Int.natAbs_mul]
    exact Nat.dvd_mul_right _ _
  constructor
  · exact (first.1.mul_right second.1).coprime_dvd_right (Rat.mul_den_dvd g h)
  · exact (first.2.mul_left second.2).coprime_dvd_left num

theorem noCancelling_prod {powers : List Factor} (apart : ∀ g ∈ powers, NoCancelling f g) :
    NoCancelling f powers.prod := by
  induction powers with
  | nil => exact noCancelling_one f
  | cons g powers ih =>
    rw [List.prod_cons]
    exact (apart g (by simp)).mul (ih fun other member => apart other (by simp [member]))

theorem noCancelling_prod_prod {before after : List Factor}
    (apart : ∀ f ∈ before, ∀ g ∈ after, NoCancelling f g) :
    NoCancelling before.prod after.prod :=
  (noCancelling_prod fun f member => (noCancelling_prod (apart f member)).symm).symm

/-- A number that goes into a product without cancelling is no larger than the product. -/
theorem NoCancelling.fits_left (apart : NoCancelling f g) (left : 0 < f) (right : 0 < g)
    (fit : fits (f * g) = true) : fits f = true := by
  have coprime : (f.num * g.num).natAbs.gcd (f.den * g.den) = 1 := by
    rw [Int.natAbs_mul]
    exact Nat.Coprime.mul_right (Nat.Coprime.mul_left f.reduced apart.2)
      (Nat.Coprime.mul_left apart.1 g.reduced)
  obtain ⟨num, den⟩ := (fits_iff_of_pos (mul_pos left right)).mp fit
  rw [Rat.mul_num, coprime, Nat.cast_one, Int.ediv_one] at num
  rw [Rat.mul_den, coprime, Nat.div_one] at den
  have numLarger : f.num ≤ f.num * g.num :=
    le_mul_of_one_le_right (Rat.num_pos.mpr left).le (Rat.num_pos.mpr right)
  have denLarger : f.den ≤ f.den * g.den := Nat.le_mul_of_pos_right _ g.den_pos
  rw [fits_iff_of_pos left]
  omega

/-! ### Numbers that fit all the way -/

/-- Each power fits, and so does its product with all that come before it. -/
def FitsThroughout (start : Factor) (powers : List Factor) : Prop :=
  ∀ before power after, powers = before ++ power :: after →
    fits power = true ∧ fits (start * before.prod * power) = true

theorem fitsThroughout_nil (start : Factor) : FitsThroughout start [] := by
  rintro before power after split
  simp at split

theorem fitsThroughout_cons {start power : Factor} {rest : List Factor} :
    FitsThroughout start (power :: rest) ↔
      (fits power = true ∧ fits (start * power) = true) ∧ FitsThroughout (start * power) rest := by
  constructor
  · intro throughout
    refine ⟨by simpa using throughout [] power rest rfl, fun before other after split => ?_⟩
    have later := throughout (power :: before) other after (by rw [split, List.cons_append])
    rwa [List.prod_cons, ← mul_assoc start] at later
  · rintro ⟨first, later⟩ before other after split
    cases before with
    | nil =>
      obtain ⟨rfl, rfl⟩ := List.cons.inj split
      simpa using first
    | cons head before =>
      obtain ⟨rfl, rfl⟩ := List.cons.inj split
      rw [List.prod_cons, ← mul_assoc start]
      exact later before other after rfl

/-- Where nothing cancels, everything on the way to a product that fits does so too. -/
theorem fitsThroughout_of_noCancelling {powers : List Factor} (positive : ∀ f ∈ powers, 0 < f)
    (apart : powers.Pairwise NoCancelling) (fit : fits powers.prod = true) :
    FitsThroughout 1 powers := by
  rintro before power after rfl
  have beforePositive : ∀ f ∈ before, 0 < f := fun f member =>
    positive f (List.mem_append_left _ member)
  have powerPositive : 0 < power := positive power (by simp)
  have afterPositive : ∀ f ∈ after, 0 < f := fun f member => positive f (by simp [member])
  obtain ⟨-, later, separate⟩ := List.pairwise_append.mp apart
  have fromAfter : NoCancelling power after.prod :=
    noCancelling_prod (List.pairwise_cons.mp later).1
  have fromBefore : NoCancelling before.prod power :=
    (noCancelling_prod fun f member => (separate f member power (by simp)).symm).symm
  have apartFromAfter : NoCancelling before.prod after.prod :=
    noCancelling_prod_prod fun f member g present => separate f member g (by simp [present])
  -- First what comes after the power is left out, then what comes before it.
  have product : fits (before.prod * power) = true := by
    rw [List.prod_append, List.prod_cons, ← mul_assoc] at fit
    exact (apartFromAfter.symm.mul fromAfter.symm).symm.fits_left
      (mul_pos (List.prod_pos beforePositive) powerPositive) (List.prod_pos afterPositive) fit
  have single : fits power = true := by
    rw [mul_comm] at product
    exact fromBefore.symm.fits_left powerPositive (List.prod_pos beforePositive) product
  rw [one_mul]
  exact ⟨single, product⟩

end Factor

/-- The powers of the parts of a unit, in the order in which they are multiplied. -/
def Unit.powers (worth : UnitId → Rat) (u : Unit) : List Factor :=
  u.composite.entries.map fun part => worth part.1 ^ part.2

namespace Registry

open Composite Factor

variable {r : Registry} {u : Unit} {factor product next : Factor} {part : UnitId × Int}

/-! ### When a factor is missing -/

theorem IsScaledUnit.fits_worthAt (wf : r.WellFormed) {id : UnitId} (scaled : r.IsScaledUnit id) :
    fits (r.worthAt id).val = true := by
  have known := scaled.factorOf_eq wf
  obtain ⟨symbol, scale, factor, found⟩ := scaled
  rw [← Except.ok.inj ((factorOf_eq_ok found).symm.trans known)]
  exact (wf.scaled id symbol scale factor found).2.2

/-- A step goes on exactly if the power fits and the product does. -/
theorem timesPart_eq_ok_iff (wf : r.WellFormed) (scaled : r.IsScaledUnit part.1) :
    r.timesPart u product part = .ok next ↔
      next = product * (r.worthAt part.1).val ^ part.2 ∧
        fits ((r.worthAt part.1).val ^ part.2) = true ∧
          fits (product * (r.worthAt part.1).val ^ part.2) = true := by
  have power : ∀ {g}, powi? (r.worthAt part.1).val part.2 = some g ↔ _ :=
    powi?_eq_some_iff (r.worthAt part.1).property (scaled.fits_worthAt wf)
  rw [timesPart, scaled.factorOf_eq wf, bind_ok]
  constructor
  · intro done
    split at done
    next result found =>
      obtain rfl := Except.ok.inj done
      obtain ⟨raised, atPower, multiplied⟩ := Option.bind_eq_some_iff.mp found
      obtain ⟨rfl, powerFits⟩ := power.mp atPower
      obtain ⟨rfl, productFits⟩ := mul?_eq_some_iff.mp multiplied
      exact ⟨rfl, powerFits, productFits⟩
    · cases done
  · rintro ⟨rfl, powerFits, productFits⟩
    rw [power.mpr ⟨rfl, powerFits⟩, Option.bind_some, mul?_eq_some_iff.mpr ⟨rfl, productFits⟩]
    rfl

theorem foldlM_timesPart_eq_ok_iff (wf : r.WellFormed) {parts : List (UnitId × Int)}
    (scaled : ∀ part ∈ parts, r.IsScaledUnit part.1) :
    parts.foldlM (r.timesPart u) product = .ok factor ↔
      factor = product * (parts.map fun part => (r.worthAt part.1).val ^ part.2).prod ∧
        FitsThroughout product (parts.map fun part => (r.worthAt part.1).val ^ part.2) := by
  induction parts generalizing product with
  | nil =>
    rw [List.map_nil, List.prod_nil, mul_one]
    exact ⟨fun done => ⟨(Except.ok.inj done).symm, fitsThroughout_nil product⟩,
      fun ⟨same, _⟩ => congrArg Except.ok same.symm⟩
  | cons part parts ih =>
    have rest := fun other member => scaled other (List.mem_cons_of_mem part member)
    rw [List.foldlM_cons, bind_eq_ok, List.map_cons, List.prod_cons, fitsThroughout_cons, ← mul_assoc]
    constructor
    · rintro ⟨next, step, done⟩
      obtain ⟨rfl, fit⟩ := (timesPart_eq_ok_iff wf (scaled part (by simp))).mp step
      obtain ⟨exact, later⟩ := (ih rest).mp done
      exact ⟨exact, fit, later⟩
    · rintro ⟨exact, fit, later⟩
      exact ⟨_, (timesPart_eq_ok_iff wf (scaled part (by simp))).mpr ⟨rfl, fit⟩,
        (ih rest).mpr ⟨exact, later⟩⟩

theorem Elementary.factor_eq_ok_iff (wf : r.WellFormed) (elementary : r.Elementary u) :
    r.factor u = .ok factor ↔ factor = (u.powers fun id => (r.worthAt id).val).prod ∧
      FitsThroughout 1 (u.powers fun id => (r.worthAt id).val) := by
  rw [Registry.factor, elementary.check, bind_ok,
    foldlM_timesPart_eq_ok_iff wf fun part member => elementary.of_mem member, one_mul]
  rfl

theorem Elementary.factor_eq_error_iff (wf : r.WellFormed) (elementary : r.Elementary u)
    {error : UnitError} :
    r.factor u = .error error ↔ error = .factorOverflow (r.unitText u) ∧
      ¬ FitsThroughout 1 (u.powers fun id => (r.worthAt id).val) := by
  rcases elementary.factor_cases with ⟨factor, exact⟩ | tooLarge
  · have throughout := ((elementary.factor_eq_ok_iff wf).mp exact).2
    rw [exact]
    simp [throughout]
  · have lacking : ¬ FitsThroughout 1 (u.powers fun id => (r.worthAt id).val) := fun throughout => by
      rw [(elementary.factor_eq_ok_iff wf).mpr ⟨rfl, throughout⟩] at tooLarge
      cases tooLarge
    rw [tooLarge, Except.error.injEq, eq_comm]
    exact (and_iff_left lacking).symm

/-! ### Main result -/

/-- A factor is missing exactly if some number on the way to it does not fit. It is when the exact
product does not fit, and where nothing cancels that is the only reason, so that the scaling of a
unit is exact whenever the product fits. -/
theorem overflow_is_met_on_the_way (reachable : r.Reachable) (built : Built r u) :
    ∃ declared : UnitId → Rat,
      (∀ part ∈ u.composite.entries, r.DeclaredWorth part.1 (declared part.1)) ∧
      (∀ error, r.factor u = .error error ↔
        error = .factorOverflow (r.unitText u) ∧ ¬ FitsThroughout 1 (u.powers declared)) ∧
      (fits (u.powers declared).prod = false →
        r.factor u = .error (.factorOverflow (r.unitText u))) ∧
      ((u.powers declared).Pairwise NoCancelling → fits (u.powers declared).prod = true →
        r.factor u = .ok (u.powers declared).prod ∧
          r.scaling u = .ok (.exact (u.powers declared).prod)) := by
  have wf := reachable.wellFormed
  have elementary := built.elementary
  refine ⟨fun id => (r.worthAt id).val, fun part member => ?declared,
    fun error => elementary.factor_eq_error_iff wf, ?tooLarge, ?cancelFree⟩
  case declared =>
    obtain ⟨worth, known⟩ := reachable.exists_declaredWorth (elementary.of_mem member)
    have kept := (elementary.of_mem member).factorOf_eq wf
    rwa [Except.ok.inj (known.factorOf_eq.symm.trans kept)] at known
  case tooLarge =>
    intro tooLarge
    refine elementary.factor_cases.resolve_left fun ⟨factor, exact⟩ => ?_
    have fit := fits_of_factor exact
    rw [((elementary.factor_eq_ok_iff wf).mp exact).1, tooLarge] at fit
    cases fit
  case cancelFree =>
    intro apart fit
    have positive : ∀ f ∈ u.powers fun id => (r.worthAt id).val, 0 < f := by
      intro f member
      obtain ⟨part, -, rfl⟩ := List.mem_map.mp member
      exact zpow_pos (r.worthAt part.1).property part.2
    have exact := (elementary.factor_eq_ok_iff wf).mpr
      ⟨rfl, fitsThroughout_of_noCancelling positive apart fit⟩
    exact ⟨exact, by rw [Registry.scaling, exact]⟩

/-- Lengths far apart: nanometres and kilometres. -/
def surveying : Registry :=
  ((empty 0).declared (.scale "distance" "L")).declared
    (.prefixedUnits "m" ⟨0, 0⟩ 1 1 [.nano, .kilo])

theorem reachable_surveying : surveying.Reachable := .declared (.declared (.empty 0) _) _

/-- A unit of the registry was declared to be worth what it is kept with. -/
theorem declaredWorth_surveying {id : UnitId} {factor : Factor}
    (known : surveying.factorOf id = .ok factor) (scaled : surveying.IsScaledUnit id) :
    surveying.DeclaredWorth id factor := by
  obtain ⟨worth, declared⟩ := reachable_surveying.exists_declaredWorth scaled
  rwa [Except.ok.inj (declared.factorOf_eq.symm.trans known)] at declared

/-- The twelfth power of a kilometre is the last one that has a factor. -/
theorem thirteenth_power_is_too_large :
    Built surveying ⟨.ofList [(⟨0, 1⟩, 12)]⟩ ∧ Built surveying ⟨.ofList [(⟨0, 1⟩, 13)]⟩ ∧
      surveying.factor ⟨.ofList [(⟨0, 1⟩, 12)]⟩ = .ok (1000 ^ (12 : Int)) ∧
      surveying.scaling ⟨.ofList [(⟨0, 1⟩, 12)]⟩ = .ok (.exact (1000 ^ (12 : Int))) ∧
      surveying.factor ⟨.ofList [(⟨0, 1⟩, 13)]⟩ = .error (.factorOverflow "km¹³") := by
  have twelfth : Built surveying ⟨.ofList [(⟨0, 1⟩, 12)]⟩ :=
    .parsed reachable_surveying (show surveying.parseUnit "km^12" = _ by decide +kernel)
  have thirteenth : Built surveying ⟨.ofList [(⟨0, 1⟩, 13)]⟩ :=
    .parsed reachable_surveying (show surveying.parseUnit "km^13" = _ by decide +kernel)
  have kilometre : surveying.factorOf ⟨0, 1⟩ = .ok 1000 := by decide +kernel
  -- A single part is all there is to multiply.
  have powers : ∀ (declared : UnitId → Rat) (n : Int),
      (ofList [((⟨0, 1⟩ : UnitId), n)]).entries = [(⟨0, 1⟩, n)] →
      (∀ part ∈ (ofList [((⟨0, 1⟩ : UnitId), n)]).entries,
        surveying.DeclaredWorth part.1 (declared part.1)) →
      Unit.powers declared ⟨ofList [(⟨0, 1⟩, n)]⟩ = [1000 ^ n] := by
    intro declared n entries known
    rw [entries, List.forall_mem_singleton] at known
    have worth : declared ⟨0, 1⟩ = 1000 :=
      Except.ok.inj (known.factorOf_eq.symm.trans kilometre)
    rw [Unit.powers, entries, List.map_singleton, worth]
  refine ⟨twelfth, thirteenth, ?_⟩
  obtain ⟨declared, known, -, -, exact⟩ := overflow_is_met_on_the_way reachable_surveying twelfth
  rw [powers declared 12 (by decide +kernel) known, List.prod_singleton] at exact
  obtain ⟨factor, scaling⟩ := exact (List.pairwise_singleton _ _) (by decide +kernel)
  obtain ⟨declared, known, -, tooLarge, -⟩ :=
    overflow_is_met_on_the_way reachable_surveying thirteenth
  rw [powers declared 13 (by decide +kernel) known, List.prod_singleton] at tooLarge
  have text : surveying.unitText ⟨.ofList [(⟨0, 1⟩, 13)]⟩ = "km¹³" := by decide +kernel
  exact ⟨factor, scaling, text ▸ tooLarge (by decide +kernel)⟩

/-- Nanometres and kilometres can make up for each other, but the power of the first is too small
before the second one comes in. -/
theorem cancelled_overflow_is_reported :
    Built surveying ⟨.ofList [(⟨0, 0⟩, 5), (⟨0, 1⟩, 15)]⟩ ∧
      surveying.DeclaredWorth ⟨0, 0⟩ (1 / 10 ^ 9) ∧ surveying.DeclaredWorth ⟨0, 1⟩ 1000 ∧
      (1 / 10 ^ 9 : Rat) ^ (5 : Int) * 1000 ^ (15 : Int) = 1 ∧ fits 1 = true ∧
      surveying.factor ⟨.ofList [(⟨0, 0⟩, 5), (⟨0, 1⟩, 15)]⟩
        = .error (.factorOverflow "nm⁵·km¹⁵") ∧
      surveying.scaling ⟨.ofList [(⟨0, 0⟩, 5), (⟨0, 1⟩, 15)]⟩
        = .ok (.approximate [(1 / 10 ^ 9, 5), (1000, 15)]) :=
  ⟨.parsed reachable_surveying (show surveying.parseUnit "nm^5·km^15" = _ by decide +kernel),
    declaredWorth_surveying (by decide +kernel) ⟨"nm", ⟨0, 0⟩, 1 / 10 ^ 9, by decide +kernel⟩,
    declaredWorth_surveying (by decide +kernel) ⟨"km", ⟨0, 0⟩, 1000, by decide +kernel⟩,
    by decide +kernel, fits_one, by decide +kernel, by decide +kernel⟩

end Registry

end Metrology
