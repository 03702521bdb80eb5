import Metrology.Proofs.Registry.Histories
import Metrology.Proofs.Registry.ReadingBack
import Metrology.Proofs.Registry.Series

/-!
# What failed declarations leave

A declaration of one thing is checked before anything is added, so that nothing is left of it when
it is refused. A declaration of several units is a series of declarations of one unit each. If one
of them is refused, the ones before it have been added, and they stay (`StopsMidway`). No failure
leaves anything else (`failed_declaration_changes_nothing_iff`).
-/
namespace Metrology

/-- The prefixes of the units that a declaration adds one after the other. -/
def Declaration.prefixes : Declaration → List MetricPrefix
  | .prefixedUnits _ _ _ _ prefixes => prefixes
  | .metricUnits _ _ _ _ => MetricPrefix.all
  | _ => []

/-- The same declaration with other prefixes. -/
def Declaration.withPrefixes (prefixes : List MetricPrefix) : Declaration → Declaration
  | .prefixedUnits symbol scaleId num den _ => .prefixedUnits symbol scaleId num den prefixes
  | .metricUnits symbol scaleId num den => .prefixedUnits symbol scaleId num den prefixes
  | other => other

namespace Declaring

open Registry

variable {symbol : String} {scale : ScaleId} {num den : UInt64} {base : Factor}
  {prefixes : List MetricPrefix} {r after : Registry}

/-! ### Units one by one -/

/-- One unit of a series. -/
def variant (symbol : String) (scale : ScaleId) (base : Factor) (metric : MetricPrefix) :
    Declaring UnitId :=
  step (Registry.addPrefixedUnit · symbol scale base metric)

theorem prefixedUnits_eq (made : Factor.ofWords? num den = some base)
    (prefixes : List MetricPrefix) :
    prefixedUnits symbol scale num den prefixes = prefixes.mapM (variant symbol scale base) := by
  rw [prefixedUnits, made]
  rfl

/-- An invalid factor is refused before any prefix is looked at. -/
theorem prefixedUnits_eq_error (invalid : Factor.ofWords? num den = none) :
    prefixedUnits symbol scale num den prefixes r = (.error (.invalidFactor num den), r) := by
  rw [prefixedUnits, invalid]
  rfl

/-- Units that have been added are at the end of the list, and nothing else has changed but the
table of symbols. -/
theorem units_of_mapM (positive : 0 < base) {ids : List UnitId}
    (done : prefixes.mapM (variant symbol scale base) r = (.ok ids, after)) :
    ∃ added : List NamedUnit, added.length = prefixes.length ∧ after = { r with
      units := r.units ++ added, unitSymbols := after.unitSymbols } := by
  induction prefixes generalizing r ids with
  | nil =>
    cases done
    exact ⟨[], rfl, by rw [List.append_nil]⟩
  | cons metric prefixes ih =>
    obtain ⟨id, next, others, first, later, -⟩ := mapM_cons_eq_ok_iff.mp done
    obtain ⟨factor, -, -, scaled⟩ := addPrefixedUnit_eq_ok positive (step_eq_ok_iff.mp first)
    obtain ⟨-, -, rfl⟩ := addScaledUnit_eq_ok scaled
    obtain ⟨added, long, same⟩ := ih later
    refine ⟨⟨metric.symbol ++ symbol, .scaled scale factor⟩ :: added, by simp [long], ?_⟩
    rw [same, withUnit, List.append_assoc]
    rfl

end Declaring

namespace Registry

open Declaring

variable {r left : Registry} {d : Declaration} {error : UnitError}

/-! ### Stopping midway -/

/-- The declaration adds several units and stops after the first of them: what it leaves is what the
declaration of the accepted ones alone would have left, and the next one is refused there. -/
def StopsMidway (r : Registry) (d : Declaration) (error : UnitError) (left : Registry) : Prop :=
  ∃ accepted refused rest, accepted ≠ [] ∧ d.prefixes = accepted ++ refused :: rest ∧
    declare (d.withPrefixes accepted) r = (.ok ⟨⟩, left) ∧
    declare (d.withPrefixes [refused]) left = (.error error, left)

/-- A declaration of several units is one with prefixes, whichever way it is written. -/
theorem exists_withPrefixes_eq (series : d.prefixes ≠ []) : ∃ symbol scale num den,
    declare d r = declare (.prefixedUnits symbol scale num den d.prefixes) r ∧
    ∀ prefixes, d.withPrefixes prefixes = .prefixedUnits symbol scale num den prefixes := by
  cases d with
  | scale | derivedScale | unit | alternative | conversion => exact absurd rfl series
  | prefixedUnits symbol scale num den _ => exact ⟨symbol, scale, num, den, rfl, fun _ => rfl⟩
  | metricUnits symbol scale num den => exact ⟨symbol, scale, num, den, rfl, fun _ => rfl⟩

/-- What a declaration does that stops midway, unit by unit. -/
theorem StopsMidway.exists_series (midway : r.StopsMidway d error left) :
    ∃ symbol scale base accepted refused rest ids, 0 < base ∧ accepted ≠ [] ∧
      accepted.mapM (variant symbol scale base) r = (.ok ids, left) ∧
      variant symbol scale base refused left = (.error error, left) ∧
      declare d r = discard ((accepted ++ refused :: rest).mapM (variant symbol scale base)) r := by
  obtain ⟨accepted, refused, rest, some, parts, done, stopped⟩ := midway
  obtain ⟨symbol, scale, num, den, whole, same⟩ :=
    exists_withPrefixes_eq (d := d) (r := r) (by simp [parts])
  rw [same] at done stopped
  obtain ⟨ids, done⟩ := discard_eq_ok_iff.mp done
  have stopped := discard_eq_error_iff.mp stopped
  cases made : Factor.ofWords? num den with
  | none =>
    -- No unit would have been accepted.
    rw [prefixedUnits_eq_error made] at done
    cases congrArg Prod.fst done
  | some base =>
    rw [prefixedUnits_eq made] at done stopped
    refine ⟨symbol, scale, base, accepted, refused, rest, ids, (Factor.ofWords?_eq_some made).1,
      some, done, mapM_singleton_eq_error_iff.mp stopped, ?_⟩
    rw [whole, parts, ← prefixedUnits_eq made]
    rfl

theorem StopsMidway.declare_eq (midway : r.StopsMidway d error left) :
    declare d r = (.error error, left) := by
  obtain ⟨symbol, scale, base, accepted, refused, rest, ids, -, -, done, stopped, whole⟩ :=
    midway.exists_series
  rw [whole, discard_eq_error_iff, mapM_eq_error_iff]
  exact ⟨accepted, refused, rest, ids, left, rfl, done, stopped⟩

/-- The accepted units are at the end of the list, and there is nothing else that is new. -/
theorem StopsMidway.exists_units (midway : r.StopsMidway d error left) :
    ∃ added, added ≠ [] ∧ left = { r with
      units := r.units ++ added, unitSymbols := left.unitSymbols } := by
  obtain ⟨symbol, scale, base, accepted, refused, rest, ids, positive, some, done, -⟩ :=
    midway.exists_series
  obtain ⟨added, long, same⟩ := units_of_mapM positive done
  refine ⟨added, ?_, same⟩
  rintro rfl
  exact some (List.eq_nil_of_length_eq_zero long.symm)

theorem StopsMidway.ne (midway : r.StopsMidway d error left) : left ≠ r := by
  obtain ⟨added, some, same⟩ := midway.exists_units
  rintro rfl
  exact some (List.append_right_eq_self.mp (congrArg units same).symm)

/-! ### What a failure leaves -/

/-- The registry is as before, or some units have been added and the next one is refused. -/
theorem prefixedUnits_failed {symbol : String} {scale : ScaleId} {num den : UInt64}
    {prefixes : List MetricPrefix}
    (failed : declare (.prefixedUnits symbol scale num den prefixes) r = (.error error, left)) :
    left = r ∨ r.StopsMidway (.prefixedUnits symbol scale num den prefixes) error left := by
  have failed := discard_eq_error_iff.mp failed
  cases made : Factor.ofWords? num den with
  | none =>
    rw [prefixedUnits_eq_error made] at failed
    exact .inl (congrArg Prod.snd failed).symm
  | some base =>
    rw [prefixedUnits_eq made] at failed
    obtain ⟨accepted, refused, rest, ids, middle, rfl, done, stopped⟩ := mapM_eq_error_iff.mp failed
    obtain ⟨-, rfl⟩ := step_eq_error_iff.mp stopped
    -- Whether something is left depends on whether the first unit has been refused already.
    cases accepted with
    | nil =>
      cases done
      exact .inl rfl
    | cons first others =>
      refine .inr ⟨first :: others, refused, rest, by simp, rfl, ?_, ?_⟩
      · refine discard_eq_ok_iff.mpr ⟨ids, ?_⟩
        rwa [prefixedUnits_eq made]
      · refine discard_eq_error_iff.mpr ?_
        rwa [prefixedUnits_eq made, mapM_singleton_eq_error_iff]

theorem eq_or_stopsMidway (failed : declare d r = (.error error, left)) :
    left = r ∨ r.StopsMidway d error left := by
  cases d with
  | scale | derivedScale | unit | alternative =>
    exact .inl (step_eq_error_iff.mp (discard_eq_error_iff.mp failed)).2
  | conversion source target forward backward =>
    change conversion source target forward backward r = _ at failed
    exact .inl (step_eq_error_iff.mp failed).2
  | prefixedUnits => exact prefixedUnits_failed failed
  | metricUnits =>
    -- A declaration of metric units is one with all prefixes.
    exact prefixedUnits_failed failed

/-- A declaration that fails leaves the registry as it was, unless it adds several units and some of
them have been accepted before. Then these stay, and nothing else has changed. -/
theorem failed_declaration_changes_nothing_iff (r : Registry) (d : Declaration) (error : UnitError)
    (failed : (declare d r).1 = .error error) :
    (d.prefixes = [] → r.declared d = r) ∧
    (r.declared d = r ↔ ∀ left, ¬ r.StopsMidway d error left) ∧
    ∀ left, r.StopsMidway d error left → r.declared d = left ∧ ∃ added, added ≠ [] ∧
      left = { r with units := r.units ++ added, unitSymbols := left.unitSymbols } := by
  have outcome : declare d r = (.error error, r.declared d) := Prod.ext failed rfl
  have leaves {left : Registry} (midway : r.StopsMidway d error left) : r.declared d = left :=
    congrArg Prod.snd (outcome.symm.trans midway.declare_eq)
  refine ⟨fun single => ?_, ⟨fun same left midway => ?_, fun never => ?_⟩, fun left midway => ?_⟩
  · -- Without prefixes there is nothing to stop in the middle of.
    refine (eq_or_stopsMidway outcome).resolve_right ?_
    rintro ⟨accepted, refused, rest, -, parts, -⟩
    simp [single] at parts
  · exact midway.ne ((leaves midway).symm.trans same)
  · exact (eq_or_stopsMidway outcome).resolve_right (never _)
  · exact ⟨leaves midway, midway.exists_units⟩

/-- The metre is refused when there is one. Nothing has changed then if it comes alone, or first; but
among its metric variants it comes after others, which stay. -/
theorem second_metre_is_refused :
    (declare (.unit "m" ⟨0, 0⟩ 1 1) metric).1 = .error (.duplicateUnit "m") ∧
      metric.declared (.unit "m" ⟨0, 0⟩ 1 1) = metric ∧
      metric.declared (.prefixedUnits "m" ⟨0, 0⟩ 1 1 [.unit, .kilo]) = metric ∧
      ∃ left, metric.StopsMidway (.metricUnits "m" ⟨0, 0⟩ 1 1) (.duplicateUnit "m") left ∧
        metric.declared (.metricUnits "m" ⟨0, 0⟩ 1 1) = left ∧
        ∃ added, added ≠ [] ∧ left = { metric with
          units := metric.units ++ added, unitSymbols := left.unitSymbols } := by
  have failed : (declare (.unit "m" ⟨0, 0⟩ 1 1) metric).1 = .error (.duplicateUnit "m") ∧
      (declare (.prefixedUnits "m" ⟨0, 0⟩ 1 1 [.unit, .kilo]) metric).1 = .error (.duplicateUnit "m") ∧
      (declare (.metricUnits "m" ⟨0, 0⟩ 1 1) metric).1 = .error (.duplicateUnit "m") := by
    decide +kernel
  have counted : (metric.declared (.prefixedUnits "m" ⟨0, 0⟩ 1 1 [.unit, .kilo])).units.length = 1 ∧
      (metric.declared (.metricUnits "m" ⟨0, 0⟩ 1 1)).units.length = 6 := by
    decide +kernel
  obtain ⟨alone, first, among⟩ := failed
  obtain ⟨unchanged, -⟩ := failed_declaration_changes_nothing_iff _ _ _ alone
  obtain ⟨-, keeps, adds⟩ := failed_declaration_changes_nothing_iff _ _ _ first
  obtain ⟨-, changes, leaves⟩ := failed_declaration_changes_nothing_iff _ _ _ among
  refine ⟨alone, unchanged rfl, keeps.mpr fun left midway => ?_, ?_⟩
  · -- A unit that had been added would be counted.
    obtain ⟨same, added, some, longer⟩ := adds left midway
    have length : left.units.length = 1 := same ▸ counted.1
    rw [longer, List.length_append] at length
    exact some (List.eq_nil_of_length_eq_zero (Nat.add_left_cancel length))
  · by_contra none
    have same := changes.mpr fun left midway => none ⟨left, midway, leaves left midway⟩
    exact absurd (same ▸ counted.2) (by decide)

/-- The metre is refused among its metric variants too, but those that come before it stay. -/
theorem refused_metric_units_stay :
    metric.Reachable ∧
      (declare (.metricUnits "m" ⟨0, 0⟩ 1 1) metric).1 = .error (.duplicateUnit "m") ∧
      (metric.declared (.metricUnits "m" ⟨0, 0⟩ 1 1)).units.map (·.symbol)
        = ["m", "nm", "um", "mm", "cm", "dm"] ∧
      metric.declared (.metricUnits "m" ⟨0, 0⟩ 1 1) ≠ metric := by
  have symbols : (metric.declared (.metricUnits "m" ⟨0, 0⟩ 1 1)).units.map (·.symbol)
      = ["m", "nm", "um", "mm", "cm", "dm"] := by decide +kernel
  refine ⟨.declared (.declared (.empty 0) _) _, by decide +kernel, symbols, fun same => ?_⟩
  rw [same] at symbols
  exact absurd symbols (by decide +kernel)

end Registry

end Metrology
