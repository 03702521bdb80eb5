import Metrology.Proofs.Expr.Equality
import Metrology.Proofs.Registry.OwnUnits
import Metrology.Registry.Convert

/-!
# Measuring elementary units

All that is asked of an elementary unit has an answer, except that its factor may be too large, in
which case the factors of its parts are there to approximate it.
-/
namespace Metrology.Registry

open Composite

variable {r : Registry} {u w : Unit}

/-- The scale of a named unit; of no interest for an alternative name, which has none. -/
def scaleAt (r : Registry) (id : UnitId) : ScaleId :=
  match r.scaleOf id with
  | .ok scale => scale
  | .error _ => ⟨r.tag, 0⟩

theorem scaleOf_eq_ok {id : UnitId} {symbol : String} {scale : ScaleId} {factor : Factor}
    (found : r.unit? id = some ⟨symbol, .scaled scale factor⟩) : r.scaleOf id = .ok scale := by
  simp [scaleOf, found]

theorem factorOf_eq_ok {id : UnitId} {symbol : String} {scale : ScaleId} {factor : Factor}
    (found : r.unit? id = some ⟨symbol, .scaled scale factor⟩) : r.factorOf id = .ok factor := by
  simp [factorOf, found]

theorem Elementary.check (elementary : r.Elementary u) : r.check u = .ok ⟨⟩ := by
  unfold Registry.check
  rw [if_neg]
  rw [List.any_eq_true]
  rintro ⟨entry, member, foreign⟩
  obtain ⟨symbol, scale, factor, found⟩ := elementary.of_mem member
  have own := (unit?_eq_some_iff.mp found).1
  simp [own] at foreign

theorem IsScaledUnit.scaleOf_eq {id : UnitId} (scaled : r.IsScaledUnit id) :
    r.scaleOf id = .ok (r.scaleAt id) := by
  obtain ⟨symbol, scale, factor, found⟩ := scaled
  have known := scaleOf_eq_ok found
  rw [scaleAt, known]

theorem IsScaledUnit.hasScale (wf : r.WellFormed) {id : UnitId} (scaled : r.IsScaledUnit id) :
    r.HasScale (r.scaleAt id) := by
  obtain ⟨symbol, scale, factor, found⟩ := scaled
  rw [scaleAt, scaleOf_eq_ok found]
  exact (wf.scaled id symbol scale factor found).1

theorem Elementary.scalesOf_eq (elementary : r.Elementary u) :
    r.scalesOf u = .ok (eval (fun id => .single (r.scaleAt id)) u.composite) := by
  have each : ∀ entry ∈ u.composite.written,
      (do return (← r.scaleOf entry.1, entry.2) : Except UnitError (ScaleId × Int))
        = .ok (r.scaleAt entry.1, entry.2) := by
    intro entry member
    have present := (written_perm_entries u.composite).mem_iff.mp member
    rw [(elementary.of_mem present).scaleOf_eq]
    rfl
  have collected : ofList (u.composite.written.map fun entry => (r.scaleAt entry.1, entry.2))
      = eval (fun id => .single (r.scaleAt id)) u.composite := by
    -- The order in which the parts are written does not matter for their product.
    rw [← Expr.eval_single_self (ofList _), eval_ofList, List.map_map, eval_eq_prod]
    exact ((written_perm_entries u.composite).map _).prod_eq
  rw [← collected]
  exact bind_eq_ok.mpr ⟨⟨⟩, elementary.check, bind_eq_ok.mpr ⟨_, mapM_eq_ok_map each, rfl⟩⟩

/-- Only units that are made of scaled units have scales. -/
theorem elementary_of_scalesOf {scales : Composite ScaleId} (measured : r.scalesOf u = .ok scales) :
    r.Elementary u := by
  obtain ⟨-, -, rest⟩ := bind_eq_ok.mp measured
  obtain ⟨parts, collected, -⟩ := bind_eq_ok.mp rest
  intro id occurs
  have present := (written_perm_entries u.composite).mem_iff.mpr (mem_of_count occurs)
  obtain ⟨pair, -, step⟩ := exists_of_forall₂_left (mapM_eq_ok_iff.mp collected) _ present
  obtain ⟨scale, found, -⟩ := bind_eq_ok.mp step
  unfold scaleOf at found
  split at found
  next symbol family factor here => exact ⟨symbol, family, factor, here⟩
  · cases found

theorem Elementary.exists_scalesOf (wf : r.WellFormed) (elementary : r.Elementary u) :
    ∃ scales, r.scalesOf u = .ok scales ∧ scales.AllAtoms r.HasScale := by
  refine ⟨_, elementary.scalesOf_eq, ?_⟩
  rw [← substitute_eq_eval]
  refine AllAtoms.substitute fun entry member => ?_
  exact allAtoms_single.mpr ((elementary.of_mem member).hasScale wf)

theorem dimension_eq_ok {scales : Composite ScaleId} (measured : r.scalesOf u = .ok scales) :
    r.dimension u = .ok ⟨r.expandScales scales⟩ := by
  simp [dimension, measured, bind, Except.bind, pure, Except.pure]

theorem elementary_of_dimension {d : Dimension} (measured : r.dimension u = .ok d) :
    r.Elementary u := by
  obtain ⟨scales, found, -⟩ := bind_eq_ok.mp measured
  exact elementary_of_scalesOf found

theorem timesPart_cases {part : UnitId × Int} (scaled : r.IsScaledUnit part.1) (product : Factor) :
    (∃ next, r.timesPart u product part = .ok next) ∨
      r.timesPart u product part = .error (.factorOverflow (r.unitText u)) := by
  obtain ⟨symbol, scale, factor, found⟩ := scaled
  simp only [timesPart, factorOf_eq_ok found, bind, Except.bind]
  cases (Factor.powi? factor part.2).bind (Factor.mul? product) with
  | none => exact .inr rfl
  | some next => exact .inl ⟨next, rfl⟩

/-- The factor of an elementary unit is missing only if it is too large. -/
theorem Elementary.factor_cases (elementary : r.Elementary u) :
    (∃ factor, r.factor u = .ok factor) ∨ r.factor u = .error (.factorOverflow (r.unitText u)) := by
  -- The fold goes on with some product or stops with the error, whatever the product was before.
  have folded : ∀ (parts : List (UnitId × Int)) (product : Factor),
      (∀ part ∈ parts, r.IsScaledUnit part.1) →
      (∃ factor, parts.foldlM (r.timesPart u) product = .ok factor) ∨
        parts.foldlM (r.timesPart u) product = .error (.factorOverflow (r.unitText u)) := by
    intro parts
    induction parts with
    | nil => exact fun product _ => .inl ⟨product, rfl⟩
    | cons part rest ih =>
      intro product scaled
      rw [List.foldlM_cons]
      rcases timesPart_cases (u := u) (scaled part (by simp)) product with ⟨next, step⟩ | tooLarge
      · rw [step]
        exact ih next fun other member => scaled other (by simp [member])
      · rw [tooLarge]
        exact .inr rfl
  have whole := folded u.composite.entries 1 fun part member => elementary.of_mem member
  simpa [Registry.factor, elementary.check, bind, Except.bind] using whole

theorem Elementary.exists_factors (elementary : r.Elementary u) :
    ∃ factors, r.factors u = .ok factors := by
  have each : ∀ entry ∈ u.composite.entries, ∃ pair : Factor × Int,
      (do return (← r.factorOf entry.1, entry.2) : Except UnitError (Factor × Int)) = .ok pair ∧
        True := by
    intro entry member
    obtain ⟨symbol, scale, factor, found⟩ := elementary.of_mem member
    refine ⟨(factor, entry.2), ?_, trivial⟩
    rw [factorOf_eq_ok found]
    rfl
  obtain ⟨factors, collected, -⟩ := exists_mapM_eq_ok (P := fun _ => True) each
  exact ⟨factors, collected⟩

theorem Elementary.exists_scaling (elementary : r.Elementary u) :
    ∃ scaling, r.scaling u = .ok scaling := by
  rcases elementary.factor_cases with ⟨factor, exact⟩ | tooLarge
  · exact ⟨.exact factor, by simp [scaling, exact]⟩
  · obtain ⟨factors, parts⟩ := elementary.exists_factors
    exact ⟨.approximate factors, by
      simp [scaling, tooLarge, parts, bind, Except.bind, pure, Except.pure]⟩

theorem Elementary.exists_rescaling (source : r.Elementary u) (target : r.Elementary w) :
    ∃ route, r.rescaling u w = .ok route := by
  obtain ⟨sourceScaling, toBase⟩ := source.exists_scaling
  obtain ⟨targetScaling, fromBase⟩ := target.exists_scaling
  -- Whichever factor is too large, or their ratio, the way through base units is open.
  have rescaled : ∀ text, r.ratio u w = .error (.factorOverflow text) →
      r.rescaling u w = .ok (.rescale sourceScaling targetScaling) := by
    intro text tooLarge
    simp [rescaling, tooLarge, toBase, fromBase, bind, Except.bind, pure, Except.pure]
  rcases source.factor_cases with ⟨sourceFactor, atSource⟩ | tooLarge
  · rcases target.factor_cases with ⟨targetFactor, atTarget⟩ | tooLarge
    · cases quotient : Factor.div? sourceFactor targetFactor with
      | some ratio =>
        exact ⟨.ratio ratio, by
          simp [rescaling, Registry.ratio, atSource, atTarget, quotient, bind, Except.bind, pure,
            Except.pure]⟩
      | none =>
        refine ⟨_, rescaled (r.unitText u) ?_⟩
        simp [Registry.ratio, atSource, atTarget, quotient, bind, Except.bind, throw, throwThe,
          MonadExceptOf.throw]
    · exact ⟨_, rescaled (r.unitText w) (by simp [Registry.ratio, atSource, tooLarge, bind, Except.bind])⟩
  · exact ⟨_, rescaled (r.unitText u) (by simp [Registry.ratio, tooLarge, bind, Except.bind])⟩

end Metrology.Registry
