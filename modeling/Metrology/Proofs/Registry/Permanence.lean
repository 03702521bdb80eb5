import Metrology.Proofs.Registry.Convertibility
import Metrology.Proofs.Registry.Dimensions
import Metrology.Proofs.Registry.Growth

/-!
# Answers that declarations keep

What a registry says of the identifiers that it has given out depends on their entries and on
entries that those mention, which were there before them. A registry that only grows therefore says
the same ever after (`Grows.reduce_eq` to `Grows.rescaling_eq`).

Lookups by name and searches are different: they go through all entries, and later ones could get
in the way. They do not, because names stay taken and because a search stops at the first entry
that fits, so that what has been found is found again (`Grows.findScale` to `Grows.route`).
-/
namespace Metrology

theorem Composite.text_congr {α : Type} [Ord α] {f g : α → String} {c : Composite α}
    (same : ∀ entry ∈ c.entries, f entry.1 = g entry.1) : c.text f = c.text g := by
  have parts : ∀ keep : α × Int → Bool,
      factorTexts f (c.entries.filter keep) = factorTexts g (c.entries.filter keep) := by
    intro keep
    refine List.map_congr_left fun entry member => ?_
    rw [same entry (List.mem_of_mem_filter member)]
  unfold text above below
  rw [parts, parts]

namespace Registry

open Composite

variable {r later : Registry} {u source target : Unit}

theorem IsScaledUnit.hasUnit {id : UnitId} (scaled : r.IsScaledUnit id) : r.HasUnit id := by
  obtain ⟨symbol, scale, factor, found⟩ := scaled
  exact ⟨_, found⟩

theorem Elementary.issued (elementary : r.Elementary u) : ∀ id ∈ u.expr.atoms, r.HasUnit id :=
  fun id member => (elementary id (Expr.mem_atoms_ofComposite.mp member)).hasUnit

/-- An identifier in the entries of a unit is one in its tree. -/
theorem issued_of_mem (issued : ∀ id ∈ u.expr.atoms, r.HasUnit id) {entry : UnitId × Int}
    (member : entry ∈ u.composite.entries) : r.HasUnit entry.1 := by
  obtain ⟨notZero, counted⟩ := mem_entries_iff.mp member
  exact issued entry.1 (Expr.mem_atoms_ofComposite.mpr (counted ▸ notZero))

namespace Grows

/-! ### What is known of an identifier -/

theorem unit?_eq (grows : r.Grows later) {id : UnitId} (known : r.HasUnit id) :
    later.unit? id = r.unit? id := by
  obtain ⟨unit, found⟩ := known
  rw [found, grows.unit? found]

theorem expansion?_eq (grows : r.Grows later) {id : UnitId} (known : r.HasUnit id) :
    later.expansion? id = r.expansion? id := by
  unfold expansion?
  rw [grows.unit?_eq known]

theorem unitSymbol_eq (grows : r.Grows later) {id : UnitId} (known : r.HasUnit id) :
    later.unitSymbol id = r.unitSymbol id := by
  unfold unitSymbol
  rw [grows.unit?_eq known]

theorem scaleOf_eq (grows : r.Grows later) {id : UnitId} (known : r.HasUnit id) :
    later.scaleOf id = r.scaleOf id := by
  unfold scaleOf
  rw [grows.unit?_eq known, grows.unitSymbol_eq known]

theorem factorOf_eq (grows : r.Grows later) {id : UnitId} (known : r.HasUnit id) :
    later.factorOf id = r.factorOf id := by
  unfold factorOf
  rw [grows.unit?_eq known, grows.unitSymbol_eq known]

theorem derivation?_eq (grows : r.Grows later) {id : ScaleId} (known : r.HasScale id) :
    later.derivation? id = r.derivation? id := by
  obtain ⟨scale, found⟩ := known
  rw [derivation?, derivation?, found, grows.scale? found]

/-! ### Expressions -/

theorem reduce_eq (grows : r.Grows later) {e : Expr UnitId}
    (issued : ∀ id ∈ e.atoms, r.HasUnit id) : later.reduce e = r.reduce e := by
  refine congrArg Unit.mk (Expr.value_congr fun id member => ?_)
  rw [grows.expansion?_eq (issued id member)]

theorem symbol_eq (grows : r.Grows later) (wf : r.WellFormed) {e : Expr UnitId}
    (issued : ∀ id ∈ e.atoms, r.HasUnit id) : later.symbol e = r.symbol e := by
  have scaled := wf.allAtoms_reduce issued
  rw [symbol, symbol, grows.reduce_eq issued]
  exact text_congr fun entry member => grows.unitSymbol_eq (scaled.of_mem member).hasUnit

/-! ### Units -/

theorem check_eq (grows : r.Grows later) (wf : r.WellFormed)
    (issued : ∀ id ∈ u.expr.atoms, r.HasUnit id) : later.check u = r.check u := by
  rw [Registry.check, Registry.check, grows.tag, unitText, unitText, grows.symbol_eq wf issued]

theorem scalesOf_eq (grows : r.Grows later) (wf : r.WellFormed)
    (issued : ∀ id ∈ u.expr.atoms, r.HasUnit id) : later.scalesOf u = r.scalesOf u := by
  unfold scalesOf
  rw [grows.check_eq wf issued]
  refine bind_congr fun _ => congrArg (· >>= _) (mapM_congr fun entry member => ?_)
  have present := (written_perm_entries u.composite).mem_iff.mp member
  rw [grows.scaleOf_eq (issued_of_mem issued present)]

theorem expandScales_eq (grows : r.Grows later) {c : Composite ScaleId}
    (known : c.AllAtoms r.HasScale) : later.expandScales c = r.expandScales c := by
  rw [expandScales_eq_eval, expandScales_eq_eval]
  apply eval_congr
  intro entry member
  rw [grows.derivation?_eq (known.of_mem member)]

theorem dimension_eq (grows : r.Grows later) (wf : r.WellFormed)
    (issued : ∀ id ∈ u.expr.atoms, r.HasUnit id) : later.dimension u = r.dimension u := by
  rw [dimension, dimension, grows.scalesOf_eq wf issued]
  cases measured : r.scalesOf u with
  | error error => rfl
  | ok scales =>
    -- Only scales that have been declared are expanded.
    obtain ⟨found, same, known⟩ := (elementary_of_scalesOf measured).exists_scalesOf wf
    obtain rfl := Except.ok.inj (measured.symm.trans same)
    rw [bind_ok, bind_ok, grows.expandScales_eq known]

theorem factor_eq (grows : r.Grows later) (wf : r.WellFormed)
    (issued : ∀ id ∈ u.expr.atoms, r.HasUnit id) : later.factor u = r.factor u := by
  unfold factor
  rw [grows.check_eq wf issued]
  refine bind_congr fun _ => foldlM_congr fun part member product => ?_
  rw [timesPart, timesPart, grows.factorOf_eq (issued_of_mem issued member), unitText, unitText,
    grows.symbol_eq wf issued]

theorem factors_eq (grows : r.Grows later) (issued : ∀ id ∈ u.expr.atoms, r.HasUnit id) :
    later.factors u = r.factors u := by
  refine mapM_congr fun entry member => ?_
  rw [grows.factorOf_eq (issued_of_mem issued member)]

theorem scaling_eq (grows : r.Grows later) (wf : r.WellFormed)
    (issued : ∀ id ∈ u.expr.atoms, r.HasUnit id) : later.scaling u = r.scaling u := by
  rw [scaling, scaling, grows.factor_eq wf issued, grows.factors_eq issued]

theorem rescaling_eq (grows : r.Grows later) (wf : r.WellFormed)
    (atSource : ∀ id ∈ source.expr.atoms, r.HasUnit id)
    (atTarget : ∀ id ∈ target.expr.atoms, r.HasUnit id) :
    later.rescaling source target = r.rescaling source target := by
  have sameRatio : later.ratio source target = r.ratio source target := by
    rw [ratio, ratio, grows.factor_eq wf atSource, grows.factor_eq wf atTarget, unitText, unitText,
      grows.symbol_eq wf atSource]
  rw [rescaling, rescaling, sameRatio, grows.scaling_eq wf atSource, grows.scaling_eq wf atTarget]

/-! ### Lookups by name -/

theorem findScale (grows : r.Grows later) {name : String} {id : ScaleId}
    (found : r.findScale name = .ok id) : later.findScale name = .ok id :=
  findScale_eq_ok_iff.mpr (grows.scaleNames name id (findScale_eq_ok_iff.mp found))

theorem findUnit (grows : r.Grows later) {symbol : String} {id : UnitId}
    (found : r.findUnit symbol = .ok id) : later.findUnit symbol = .ok id :=
  findUnit_eq_ok_iff.mpr (grows.unitSymbols symbol id (findUnit_eq_ok_iff.mp found))

theorem resolve (grows : r.Grows later) (wf : r.WellFormed) {e : Expr String}
    (done : r.resolve e = .ok u) : later.resolve e = .ok u := by
  obtain ⟨resolved, traversed, same⟩ := bind_eq_ok.mp done
  have again := Expr.traverse_eq_ok_of_imp (fun _ _ found => grows.findUnit found) traversed
  have issued := Expr.of_traverse_eq_ok traversed fun _ _ found => hasUnit_of_findUnit wf found
  refine bind_eq_ok.mpr ⟨resolved, again, ?_⟩
  rw [grows.reduce_eq issued]
  exact same

theorem atom (grows : r.Grows later) (wf : r.WellFormed) {symbol : String}
    (done : r.atom symbol = .ok u) : later.atom symbol = .ok u := by
  obtain ⟨id, found, same⟩ := bind_eq_ok.mp done
  have issued : ∀ other ∈ (Expr.atom id).atoms, r.HasUnit other := by
    intro other member
    obtain rfl : other = id := by simpa [Expr.atoms] using member
    exact hasUnit_of_findUnit wf found
  refine bind_eq_ok.mpr ⟨id, grows.findUnit found, ?_⟩
  rw [grows.reduce_eq issued]
  exact same

theorem parseUnit (grows : r.Grows later) (wf : r.WellFormed) {text : String}
    (read : r.parseUnit text = .ok u) : later.parseUnit text = .ok u := by
  obtain ⟨e, parsed, resolved⟩ := bind_eq_ok.mp read
  exact bind_eq_ok.mpr ⟨e, parsed, grows.resolve wf resolved⟩

/-! ### Searches -/

theorem baseUnitOf? (grows : r.Grows later) {scale : ScaleId} {id : UnitId}
    (found : r.baseUnitOf? scale = some id) : later.baseUnitOf? scale = some id := by
  obtain ⟨index, first, rfl⟩ := Option.map_eq_some_iff.mp found
  have again := grows.units.findIdx?_eq_some first
  rw [Registry.baseUnitOf?, again, grows.tag]
  rfl

theorem scaleName (grows : r.Grows later) {id : ScaleId} {name : String}
    (named : r.scaleName id = .ok name) : later.scaleName id = .ok name := by
  obtain ⟨scale, found, same⟩ := scaleName_eq_ok_iff.mp named
  exact scaleName_eq_ok_iff.mpr ⟨scale, grows.scale? found, same⟩

theorem baseUnit (grows : r.Grows later) {d : Dimension}
    (done : r.baseUnit d = .ok u) : later.baseUnit d = .ok u := by
  obtain ⟨parts, paired, rfl⟩ := baseUnit_eq_ok_iff.mp done
  refine baseUnit_eq_ok_iff.mpr ⟨parts, paired.imp fun entry part found => ?_, ?_⟩
  · obtain ⟨known, first, same⟩ := found
    exact ⟨grows.hasScale known, grows.baseUnitOf? first, same⟩
  · exact grows.reduce_eq (hasUnit_of_baseParts paired)

theorem transform? (grows : r.Grows later) {f t : ScaleId} {affine : Affine Float}
    (found : r.transform? f t = some affine) : later.transform? f t = some affine :=
  grows.conversions.findSome?_eq_some found

theorem transforming (grows : r.Grows later) (wf : r.WellFormed)
    (atSource : ∀ id ∈ source.expr.atoms, r.HasUnit id)
    (atTarget : ∀ id ∈ target.expr.atoms, r.HasUnit id) {f t : ScaleId} {way : Route Float}
    (found : r.transforming source target f t = .ok way) :
    later.transforming source target f t = .ok way := by
  obtain ⟨affine, toBase, fromBase, declared, first, second, same⟩ :=
    transforming_eq_ok_iff.mp found
  rw [← grows.scaling_eq wf atSource] at first
  rw [← grows.scaling_eq wf atTarget] at second
  exact transforming_eq_ok_iff.mpr
    ⟨affine, toBase, fromBase, grows.transform? declared, first, second, same⟩

theorem check (grows : r.Grows later) (checked : r.check u = .ok ⟨⟩) : later.check u = .ok ⟨⟩ := by
  unfold Registry.check at checked ⊢
  rw [grows.tag]
  split at checked
  · cases checked
  next own => rw [if_neg own]

theorem route (grows : r.Grows later) (wf : r.WellFormed) {way : Route Float}
    (found : r.route source target = .ok way) : later.route source target = .ok way := by
  obtain ⟨⟨⟩, checkSource, rest⟩ := bind_eq_ok.mp found
  obtain ⟨⟨⟩, checkTarget, rest⟩ := bind_eq_ok.mp rest
  have laterSource := grows.check checkSource
  have laterTarget := grows.check checkTarget
  by_cases same : source = target
  · -- Nothing is asked of equal units but that they belong to the registry.
    rw [if_pos same] at rest
    rw [Registry.route, laterSource, laterTarget, bind_ok, bind_ok, if_pos same]
    exact rest
  -- Both units have been measured, so that all their atoms have been given out.
  rw [if_neg same] at rest
  obtain ⟨_, atSource, rest⟩ := bind_eq_ok.mp rest
  obtain ⟨_, atTarget, rest⟩ := bind_eq_ok.mp rest
  have fromSource := elementary_of_dimension atSource
  have toTarget := elementary_of_dimension atTarget
  obtain ⟨sourceScales, measureSource, sourceKnown⟩ := fromSource.exists_scalesOf wf
  obtain ⟨targetScales, measureTarget, targetKnown⟩ := toTarget.exists_scalesOf wf
  have sourceAgain := (grows.scalesOf_eq wf fromSource.issued).trans measureSource
  have targetAgain := (grows.scalesOf_eq wf toTarget.issued).trans measureTarget
  rw [route_eq checkSource checkTarget measureSource measureTarget, if_neg same] at found
  rw [route_eq laterSource laterTarget sourceAgain targetAgain, if_neg same,
    grows.expandScales_eq sourceKnown, grows.expandScales_eq targetKnown,
    grows.rescaling_eq wf fromSource.issued toTarget.issued]
  split
  next alike =>
    rw [if_pos alike] at found
    exact found
  next differ =>
    rw [if_neg differ] at found
    split at found
    · exact grows.transforming wf fromSource.issued toTarget.issued found
    · cases found

end Grows

/-! ### Main result -/

/-- Whatever a registry has answered is answered in the same way later: identifiers, names and
texts mean the same, what is made of identifiers that have been given out measures the same, and
searches and conversions that have succeeded succeed with the same result. -/
structure AnswersStay (before later : Registry) : Prop where
  scale : ∀ id scale, before.scale? id = some scale → later.scale? id = some scale
  unit : ∀ id unit, before.unit? id = some unit → later.unit? id = some unit
  findScale : ∀ name id, before.findScale name = .ok id → later.findScale name = .ok id
  findUnit : ∀ symbol id, before.findUnit symbol = .ok id → later.findUnit symbol = .ok id
  atom : ∀ symbol u, before.atom symbol = .ok u → later.atom symbol = .ok u
  parseUnit : ∀ text u, before.parseUnit text = .ok u → later.parseUnit text = .ok u
  expression : ∀ e : Expr UnitId, (∀ id ∈ e.atoms, before.HasUnit id) →
    later.reduce e = before.reduce e ∧ later.symbol e = before.symbol e
  measure : ∀ u : Unit, (∀ id ∈ u.expr.atoms, before.HasUnit id) →
    later.scalesOf u = before.scalesOf u ∧ later.dimension u = before.dimension u ∧
      later.factor u = before.factor u
  baseUnit : ∀ d u, before.baseUnit d = .ok u → later.baseUnit d = .ok u
  route : ∀ source target way, before.route source target = .ok way →
    later.route source target = .ok way
  convert : ∀ value source target result, before.convert value source target = .ok result →
    later.convert value source target = .ok result

theorem Grows.answersStay (grows : r.Grows later) (wf : r.WellFormed) : r.AnswersStay later where
  scale _ _ found := grows.scale? found
  unit _ _ found := grows.unit? found
  findScale _ _ found := grows.findScale found
  findUnit _ _ found := grows.findUnit found
  atom _ _ found := grows.atom wf found
  parseUnit _ _ read := grows.parseUnit wf read
  expression _ issued := ⟨grows.reduce_eq issued, grows.symbol_eq wf issued⟩
  measure _ issued :=
    ⟨grows.scalesOf_eq wf issued, grows.dimension_eq wf issued, grows.factor_eq wf issued⟩
  baseUnit _ _ found := grows.baseUnit found
  route _ _ _ found := grows.route wf found
  convert _ _ _ _ converted := by
    obtain ⟨way, found, same⟩ := convert_eq_ok_iff.mp converted
    exact convert_eq_ok_iff.mpr ⟨way, grows.route wf found, same⟩

/-- No declaration, whether it succeeds or fails, takes back an answer. -/
theorem declared_answersStay (reachable : r.Reachable) (d : Declaration) :
    r.AnswersStay (r.declared d) :=
  (grows_declared r d).answersStay reachable.wellFormed

/-- A further unit that is worth one kelvin does not take the place of the first one. -/
theorem kelvin_stays_coherent :
    oneWay.Reachable ∧
      (oneWay.declared (.unit "kelvin" ⟨0, 0⟩ 1 1)).findUnit "kelvin" = .ok ⟨0, 2⟩ ∧
      oneWay.baseUnit ⟨.single ⟨0, 0⟩⟩ = .ok ⟨.single ⟨0, 0⟩⟩ ∧
      (oneWay.declared (.unit "kelvin" ⟨0, 0⟩ 1 1)).baseUnit ⟨.single ⟨0, 0⟩⟩
        = .ok ⟨.single ⟨0, 0⟩⟩ ∧
      (oneWay.declared (.unit "kelvin" ⟨0, 0⟩ 1 1)).parseUnit "1/K²"
        = .ok ⟨.ofList [(⟨0, 0⟩, -2)]⟩ := by
  have reachable : oneWay.Reachable :=
    .declared (.declared (.declared (.declared (.declared (.empty 0) _) _) _) _) _
  have coherent : oneWay.baseUnit ⟨.single ⟨0, 0⟩⟩ = .ok ⟨.single ⟨0, 0⟩⟩ := by decide +kernel
  have read : oneWay.parseUnit "1/K²" = .ok ⟨.ofList [(⟨0, 0⟩, -2)]⟩ := by decide +kernel
  have stay := declared_answersStay reachable (.unit "kelvin" ⟨0, 0⟩ 1 1)
  exact ⟨reachable, by decide +kernel, coherent, stay.baseUnit _ _ coherent,
    stay.parseUnit _ _ read⟩

end Registry

end Metrology
