import Metrology.Json.Quantity
import Metrology.Proofs.Parse.Layout
import Metrology.Proofs.Registry.Resolving

/-!
# Units that read back from their own texts

The text of a unit reads back as the very same unit, or is malformed; it is never read as another
unit. It is malformed just if the unit mentions an atom that the registry does not have, which is
written as a number, or has an exponent beyond the limit.
-/
namespace Metrology

namespace Registry

open Composite

/-- The symbols of all named units are made of symbol characters. -/
def Legible (r : Registry) : Prop := ∀ unit ∈ r.units, Parse.IsSymbol unit.symbol.toList

/-- No atom is short for other units. -/
def Plain (r : Registry) (u : Unit) : Prop :=
  ∀ entry ∈ u.composite.entries, r.expansion? entry.1 = none

/-- The registry has all atoms, and all exponents are within the limit. -/
def Expressible (r : Registry) (u : Unit) : Prop :=
  ∀ entry ∈ u.composite.entries, r.HasUnit entry.1 ∧ entry.2.natAbs ≤ exponentLimit

variable {r : Registry} {u : Unit}

/-! ### The text of a unit -/

theorem Plain.atoms (plain : r.Plain u) : ∀ id ∈ u.expr.atoms, r.expansion? id = none :=
  fun _ member => plain _ (mem_of_count (Expr.mem_atoms_ofComposite.mp member))

theorem Elementary.plain (elementary : r.Elementary u) : r.Plain u := by
  intro entry member
  obtain ⟨symbol, scale, factor, found⟩ := elementary.of_mem member
  simp [expansion?, found]

/-- A unit without alternative names is in canonical form. -/
theorem reduce_expr (plain : r.Plain u) : r.reduce u.expr = u := by
  have literal := reduce_composite_of_plain plain.atoms
  have same : u.expr.composite = u.composite := Expr.composite_ofComposite u.composite
  exact congrArg Unit.mk (literal.trans same)

theorem unitText_eq (plain : r.Plain u) : r.unitText u = u.composite.text r.unitSymbol := by
  rw [unitText, symbol, reduce_expr plain]

theorem toList_text (id : UnitId) : id.text.toList = '#' :: Nat.toDigits 10 id.index := by
  simp [Ident.text]

theorem unitSymbol_of_unit? {id : UnitId} {unit : NamedUnit} (found : r.unit? id = some unit) :
    r.unitSymbol id = unit.symbol := by
  simp [unitSymbol, found]

theorem unitSymbol_of_not_hasUnit {id : UnitId} (foreign : ¬ r.HasUnit id) :
    r.unitSymbol id = id.text := by
  have absent : r.unit? id = none := Option.eq_none_iff_forall_ne_some.mpr fun unit found =>
    foreign ⟨unit, found⟩
  simp [unitSymbol, absent]

theorem isSymbol_of_hasUnit (legible : r.Legible) {id : UnitId} (known : r.HasUnit id) :
    Parse.IsSymbol (r.unitSymbol id).toList := by
  obtain ⟨unit, found⟩ := known
  rw [unitSymbol_of_unit? found]
  exact legible unit (List.mem_of_getElem? (unit?_eq_some_iff.mp found).2)

theorem readable_of_hasUnit (legible : r.Legible) {entry : UnitId × Int}
    (known : r.HasUnit entry.1) (within : entry.2.natAbs ≤ exponentLimit) :
    Parse.Readable r.unitSymbol entry :=
  ⟨isSymbol_of_hasUnit legible known, within⟩

theorem Expressible.readable (expressible : r.Expressible u) (legible : r.Legible) :
    ∀ entry ∈ u.composite.entries, Parse.Readable r.unitSymbol entry :=
  fun entry member =>
    readable_of_hasUnit legible (expressible entry member).1 (expressible entry member).2

theorem unreadable_of_large (legible : r.Legible) {entry : UnitId × Int}
    (known : r.HasUnit entry.1) (large : exponentLimit < entry.2.natAbs) :
    Parse.Unreadable r.unitSymbol entry :=
  .inl ⟨isSymbol_of_hasUnit legible known, large⟩

theorem unreadable_of_foreign {entry : UnitId × Int} (foreign : ¬ r.HasUnit entry.1) :
    Parse.Unreadable r.unitSymbol entry := by
  refine .inr ⟨Nat.toDigits 10 entry.1.index, Nat.toDigits_ne_nil,
    fun _ => isDigit_of_mem_toDigits, ?_⟩
  rw [unitSymbol_of_not_hasUnit foreign, toList_text]

theorem readable_or_unreadable (legible : r.Legible) (entry : UnitId × Int) :
    Parse.Readable r.unitSymbol entry ∨ Parse.Unreadable r.unitSymbol entry := by
  by_cases known : r.HasUnit entry.1
  · rcases Nat.lt_or_ge exponentLimit entry.2.natAbs with large | within
    · exact .inr (unreadable_of_large legible known large)
    · exact .inl (readable_of_hasUnit legible known within)
  · exact .inr (unreadable_of_foreign known)

/-! ### Resolving symbols -/

theorem findUnit_unitSymbol (wf : r.WellFormed) {id : UnitId} (known : r.HasUnit id) :
    r.findUnit (r.unitSymbol id) = .ok id := by
  obtain ⟨unit, found⟩ := known
  rw [unitSymbol_of_unit? found]
  exact findUnit_eq_ok_iff.mpr ((wf.unitSymbols unit.symbol id).mpr (by simp [found]))

/-- The tree of a unit resolves to the unit. -/
theorem resolve_tree (wf : r.WellFormed) (plain : r.Plain u)
    (known : ∀ entry ∈ u.composite.entries, r.HasUnit entry.1) :
    r.resolve (Parse.tree r.unitSymbol u.composite) = .ok u := by
  have found : ∀ entry ∈ u.composite.entries, r.findUnit (r.unitSymbol entry.1) = .ok entry.1 :=
    fun entry present => findUnit_unitSymbol wf (known entry present)
  -- An atom that is no alternative name stands for itself.
  have spelled : ∀ entry ∈ u.composite.entries,
      r.symbolMeaning (r.unitSymbol entry.1) = .single entry.1 := by
    intro entry present
    rw [symbolMeaning_of_findUnit (found entry present), meaning, plain entry present,
      Option.getD_none]
  refine (resolve_eq_ok_iff wf).mpr ⟨?_, congrArg Unit.mk ?_⟩
  · intro symbol member
    obtain ⟨entry, present, rfl⟩ := Parse.mem_atoms_tree r.unitSymbol member
    exact (exists_findUnit_eq_ok_iff wf).mp ⟨entry.1, found entry present⟩
  · calc u.composite
        = eval .single u.composite := (Expr.eval_single_self u.composite).symm
      _ = eval (fun id => r.symbolMeaning (r.unitSymbol id)) u.composite :=
          (eval_congr spelled).symm
      _ = (Parse.tree r.unitSymbol u.composite).value r.symbolMeaning :=
          (Parse.value_tree r.unitSymbol r.symbolMeaning u.composite).symm

/-! ### Reading back -/

theorem parseUnit_unitText (wf : r.WellFormed) (legible : r.Legible) (plain : r.Plain u)
    (expressible : r.Expressible u) : r.parseUnit (r.unitText u) = .ok u := by
  rw [unitText_eq plain, parseUnit]
  by_cases none : u.composite = 1
  · -- The text is empty, which stands for no unit.
    obtain ⟨c⟩ := u
    obtain rfl : c = 1 := none
    rfl
  · rw [Parse.unit_text_eq_ok (expressible.readable legible) none, bind_ok]
    exact resolve_tree wf plain fun entry member => (expressible entry member).1

theorem parseUnit_malformed (legible : r.Legible) (plain : r.Plain u)
    (inexpressible : ¬ r.Expressible u) :
    ∃ reason, r.parseUnit (r.unitText u) = .error (.malformed reason) := by
  have unreadable : ∃ entry ∈ u.composite.entries, Parse.Unreadable r.unitSymbol entry := by
    by_contra none
    refine inexpressible fun entry member => ?_
    -- What can be read is known and within the limit.
    constructor
    · by_contra foreign
      exact none ⟨entry, member, unreadable_of_foreign foreign⟩
    · by_contra large
      by_cases known : r.HasUnit entry.1
      · exact none ⟨entry, member, unreadable_of_large legible known (Nat.lt_of_not_le large)⟩
      · exact none ⟨entry, member, unreadable_of_foreign known⟩
  obtain ⟨reason, refused⟩ := Parse.unit_text_eq_error
    (fun entry _ => readable_or_unreadable legible entry) unreadable
  refine ⟨reason, ?_⟩
  rw [unitText_eq plain, parseUnit, refused]
  rfl

/-- A unit reads back from its text and from its string in data, or is refused there. -/
theorem unit_reads_back (reachable : r.Reachable) (legible : r.Legible) (plain : r.Plain u) :
    (r.Expressible u →
      r.parseUnit (r.unitText u) = .ok u ∧ r.unitOfJson (r.unitToJson u) = .ok u) ∧
    (¬ r.Expressible u → ∃ reason, r.parseUnit (r.unitText u) = .error (.malformed reason) ∧
      r.unitOfJson (r.unitToJson u) = .error (UnitError.malformed reason).message) := by
  constructor
  · intro expressible
    have read := parseUnit_unitText reachable.wellFormed legible plain expressible
    refine ⟨read, ?_⟩
    rw [unitToJson, unitOfJson, read]
    rfl
  · intro inexpressible
    obtain ⟨reason, refused⟩ := parseUnit_malformed legible plain inexpressible
    refine ⟨reason, refused, ?_⟩
    rw [unitToJson, unitOfJson, refused]
    rfl

/-- Lengths in metres. -/
def metric : Registry :=
  ((empty 0).declared (.scale "distance" "L")).declared (.unit "m" ⟨0, 0⟩ 1 1)

/-- A small power of the metre reads back; a large one and an unknown atom are refused. -/
theorem metric_reads_back :
    metric.unitText ⟨.ofList [(⟨0, 0⟩, -2)]⟩ = "1/m²" ∧
      metric.parseUnit "1/m²" = .ok ⟨.ofList [(⟨0, 0⟩, -2)]⟩ ∧
      (∃ reason, metric.parseUnit (metric.unitText ⟨.ofList [(⟨0, 0⟩, 1001)]⟩) =
        .error (.malformed reason)) ∧
      ∃ reason, metric.parseUnit (metric.unitText ⟨.ofList [(⟨0, 0⟩, 1), (⟨1, 7⟩, -1)]⟩) =
        .error (.malformed reason) := by
  have reachable : metric.Reachable := .declared (.declared (.empty 0) _) _
  have units : metric.units = [⟨"m", .scaled ⟨0, 0⟩ 1⟩] := by decide +kernel
  have legible : metric.Legible := by
    intro unit member
    rw [units] at member
    obtain rfl := List.mem_singleton.mp member
    decide
  have plain (u : Unit) : metric.Plain u := by
    intro entry _
    refine Option.eq_none_iff_forall_ne_some.mpr fun expansion alternative => ?_
    obtain ⟨symbol, found⟩ := expansion?_eq_some_iff.mp alternative
    have member := List.mem_of_getElem? (unit?_eq_some_iff.mp found).2
    simp [units] at member
  have text : metric.unitText ⟨.ofList [(⟨0, 0⟩, -2)]⟩ = "1/m²" := by decide +kernel
  refine ⟨text, ?_, ?_, ?_⟩
  · have expressible : metric.Expressible ⟨.ofList [(⟨0, 0⟩, -2)]⟩ := by
      intro entry member
      obtain rfl := List.mem_singleton.mp member
      exact ⟨⟨_, rfl⟩, by decide⟩
    rw [← text]
    exact ((unit_reads_back reachable legible (plain _)).1 expressible).1
  · have large : ¬ metric.Expressible ⟨.ofList [(⟨0, 0⟩, 1001)]⟩ := fun expressible =>
      absurd (expressible (⟨0, 0⟩, 1001) (by decide +kernel)).2 (by decide)
    obtain ⟨reason, refused, -⟩ := (unit_reads_back reachable legible (plain _)).2 large
    exact ⟨reason, refused⟩
  · have foreign : ¬ metric.Expressible ⟨.ofList [(⟨0, 0⟩, 1), (⟨1, 7⟩, -1)]⟩ := by
      intro expressible
      obtain ⟨unit, known⟩ := (expressible (⟨1, 7⟩, -1) (by decide +kernel)).1
      cases known
    obtain ⟨reason, refused, -⟩ := (unit_reads_back reachable legible (plain _)).2 foreign
    exact ⟨reason, refused⟩

/-! ### The standard catalog is legible -/

/-- If the symbols are legible before, they are so after. -/
def KeepsLegible (before later : Registry) : Prop := before.Legible → later.Legible

instance : IsPreorder Registry KeepsLegible where
  refl _ legible := legible
  trans _ _ _ first second legible := second (first legible)

theorem Legible.withUnit (legible : r.Legible) {unit : NamedUnit}
    (symbolic : Parse.IsSymbol unit.symbol.toList) : (r.withUnit unit).Legible := by
  intro other member
  rcases List.mem_append.mp member with before | new
  · exact legible other before
  · obtain rfl := List.mem_singleton.mp new
    exact symbolic

theorem keepsLegible_addScaledUnit {symbol : String} (symbolic : Parse.IsSymbol symbol.toList)
    {scale : ScaleId} {factor : Factor} {id : UnitId} {later : Registry}
    (accepted : r.addScaledUnit symbol scale factor = .ok (id, later)) : r.KeepsLegible later := by
  obtain ⟨-, -, rfl⟩ := addScaledUnit_eq_ok accepted
  exact fun legible => legible.withUnit symbolic

theorem isSymbol_prefixed (metric : MetricPrefix) {symbol : String}
    (symbolic : Parse.IsSymbol symbol.toList) :
    Parse.IsSymbol (metric.symbol ++ symbol).toList := by
  obtain ⟨nonempty, all⟩ := symbolic
  have letters : metric.symbol.toList.all Parse.isSymbolChar = true := by
    cases metric <;> decide +kernel
  rw [String.toList_append]
  exact ⟨List.append_ne_nil_of_right_ne_nil _ nonempty, by rw [List.all_append, letters, all]; rfl⟩

end Registry

namespace Declaring

open Registry

theorem keepsLegible_scale (name symbol : String) : Respects KeepsLegible (scale name symbol) := by
  apply respects_step
  intro r id later accepted
  obtain ⟨-, -, rfl⟩ := appendScale_eq_ok_iff.mp accepted
  exact fun legible => legible

theorem keepsLegible_derivedScale (name symbol : String) (derivation : Expr ScaleId) :
    Respects KeepsLegible (derivedScale name symbol derivation) := by
  apply respects_step
  intro r id later accepted
  obtain ⟨-, -, rfl⟩ := addDerivedScale_eq_ok accepted
  exact fun legible => legible

theorem keepsLegible_unit {symbol : String} (symbolic : Parse.IsSymbol symbol.toList)
    (scale : ScaleId) (num den : UInt64) :
    Respects KeepsLegible (unit symbol scale num den) := by
  apply respects_step
  intro r id later accepted
  obtain ⟨factor, -, -, scaled⟩ := addUnit_eq_ok accepted
  exact keepsLegible_addScaledUnit symbolic scaled

theorem keepsLegible_metricUnits {symbol : String} (symbolic : Parse.IsSymbol symbol.toList)
    (scale : ScaleId) (num den : UInt64) :
    Respects KeepsLegible (metricUnits symbol scale num den) := by
  apply respects_prefixedUnits
  intro base metric r id later positive accepted
  obtain ⟨factor, -, -, scaled⟩ := addPrefixedUnit_eq_ok positive accepted
  exact keepsLegible_addScaledUnit (isSymbol_prefixed metric symbolic) scaled

theorem keepsLegible_conversion (source target : ScaleId) (forward : Affine Float)
    (backward : Option (Affine Float)) :
    Respects KeepsLegible (conversion source target forward backward) := by
  apply respects_step
  intro r result later accepted
  cases outcome : r.addConversion source target forward backward with
  | error error => rw [outcome] at accepted; cases accepted
  | ok declared =>
    rw [outcome] at accepted
    cases accepted
    obtain ⟨-, rfl⟩ := addConversion_eq_ok outcome
    exact fun legible => legible

end Declaring

open Declaring in
theorem Catalog.legible_standard (tag : Nat) : (Catalog.standard tag).Legible := by
  have kept : Respects Registry.KeepsLegible Catalog.declare := by
    unfold Catalog.declare
    with_reducible repeat' first
      | refine Respects.bind ?_ fun _ => ?_
      | exact keepsLegible_scale _ _
      | exact keepsLegible_derivedScale _ _ _
      | exact keepsLegible_unit (by decide +kernel) _ _ _
      | exact keepsLegible_metricUnits (by decide +kernel) _ _ _
      | exact keepsLegible_conversion _ _ _ _
  refine kept (.empty tag) fun unit member => ?_
  cases member

end Metrology
