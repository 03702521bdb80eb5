import Mathlib.Data.List.Nodup
import Metrology.Proofs.Composite.Atoms
import Metrology.Proofs.Registry.Additions

/-!
# Reachable registries are well formed

The tables of names are the inverses of the lists of scales and named units, factors belong to
scales of the registry, and what is stored as a definition is expanded all the way: the derivation
of a scale mentions base scales only and an alternative name stands for scaled units only, all of
them declared earlier. Expanding a definition once is enough for this reason.

Each kind of addition keeps all of it. A new derivation or expansion is taken from the registry as
it is, so its atoms are either elementary or come from definitions that are expanded already.
-/
namespace Metrology.Registry

open Composite

/-- A scale that stands for itself. -/
def IsBaseScale (r : Registry) (id : ScaleId) : Prop :=
  ∃ scale, r.scale? id = some scale ∧ scale.derivation = none

/-- A named unit that is worth a factor. -/
def IsScaledUnit (r : Registry) (id : UnitId) : Prop :=
  ∃ symbol scale factor, r.unit? id = some ⟨symbol, .scaled scale factor⟩

/-- The table finds what has a name, and nothing else. -/
def Indexes {β : Type} (table : List (String × β)) (name? : β → Option String) : Prop :=
  ∀ name id, table.lookup name = some id ↔ name? id = some name

structure WellFormed (r : Registry) : Prop where
  scaleNames : Indexes r.scaleNames fun id => (r.scale? id).map (·.name)
  unitSymbols : Indexes r.unitSymbols fun id => (r.unit? id).map (·.symbol)
  scaled : ∀ id symbol scale factor, r.unit? id = some ⟨symbol, .scaled scale factor⟩ →
    r.HasScale scale ∧ 0 < factor ∧ factor.fits = true
  derivations : ∀ id derivation, r.derivation? id = some derivation →
    derivation.AllAtoms fun part => r.IsBaseScale part ∧ part.index < id.index
  expansions : ∀ id expansion, r.expansion? id = some expansion →
    expansion.AllAtoms fun part => r.IsScaledUnit part ∧ part.index < id.index
  conversions : ∀ c ∈ r.conversions,
    r.HasScale c.source ∧ r.HasScale c.target ∧ c.source ≠ c.target

variable {r : Registry}

/-! ### Lookups -/

theorem Indexes.cons {β : Type} [DecidableEq β] {table : List (String × β)}
    {name? : β → Option String} {name : String} (indexes : Indexes table name?) (new : β)
    (free : table.lookup name = none) (absent : name? new = none) :
    Indexes ((name, new) :: table) fun id => if id = new then some name else name? id := by
  intro sought id
  rw [lookup_cons]
  by_cases same : sought = name
  · -- No entry had this name, so that only the new one can be meant.
    have unnamed : name? id ≠ some name := fun named => by
      rw [(indexes name id).mpr named] at free
      cases free
    by_cases here : id = new
    · simp [same, here]
    · simp [same, here, Ne.symm here, unnamed]
  · by_cases here : id = new
    · -- The new entry has a name of its own only.
      subst here
      have unfound : table.lookup sought ≠ some id := fun found => by
        rw [(indexes sought id).mp found] at absent
        cases absent
      simp [same, Ne.symm same, unfound]
    · simpa [same, here] using indexes sought id

theorem index_lt_of_scale? {id : ScaleId} {scale : Scale} (found : r.scale? id = some scale) :
    id.index < r.scales.length := by
  obtain ⟨-, entry⟩ := scale?_eq_some_iff.mp found
  exact (List.getElem?_eq_some_iff.mp entry).1

theorem index_lt_of_unit? {id : UnitId} {unit : NamedUnit} (found : r.unit? id = some unit) :
    id.index < r.units.length := by
  obtain ⟨-, entry⟩ := unit?_eq_some_iff.mp found
  exact (List.getElem?_eq_some_iff.mp entry).1

theorem scale?_withScale_of_some {new : Scale} {id : ScaleId} {scale : Scale}
    (found : r.scale? id = some scale) : (r.withScale new).scale? id = some scale := by
  have bound := index_lt_of_scale? found
  rw [scale?_withScale, if_neg fun same => by simp [same] at bound]
  exact found

theorem unit?_withUnit_of_some {new : NamedUnit} {id : UnitId} {unit : NamedUnit}
    (found : r.unit? id = some unit) : (r.withUnit new).unit? id = some unit := by
  have bound := index_lt_of_unit? found
  rw [unit?_withUnit, if_neg fun same => by simp [same] at bound]
  exact found

theorem expansion?_eq_some_iff {id : UnitId} {expansion : Composite UnitId} :
    r.expansion? id = some expansion ↔
      ∃ symbol, r.unit? id = some ⟨symbol, .alternative expansion⟩ := by
  unfold expansion?
  split
  next symbol other found => simp [found]
  next notAlternative =>
    constructor
    · rintro ⟨⟩
    · rintro ⟨symbol, found⟩
      exact absurd found (notAlternative symbol expansion)

/-- A named unit that is not short for anything is worth a factor. -/
theorem isScaledUnit_of_expansion? {id : UnitId} {unit : NamedUnit} (found : r.unit? id = some unit)
    (elementary : r.expansion? id = none) : r.IsScaledUnit id := by
  obtain ⟨symbol, meaning⟩ := unit
  cases meaning with
  | scaled scale factor => exact ⟨symbol, scale, factor, found⟩
  | alternative expansion =>
    rw [expansion?_eq_some_iff.mpr ⟨symbol, found⟩] at elementary
    cases elementary

theorem isBaseScale_of_derivation? {id : ScaleId} {scale : Scale} (found : r.scale? id = some scale)
    (elementary : r.derivation? id = none) : r.IsBaseScale id :=
  ⟨scale, found, by simpa [derivation?, found] using elementary⟩

theorem IsBaseScale.derivation?_eq_none {id : ScaleId} (base : r.IsBaseScale id) :
    r.derivation? id = none := by
  obtain ⟨scale, found, underived⟩ := base
  rw [derivation?, found, Option.bind_some, underived]

/-! ### Expansion -/

/-- Expanding a tree over known scales leaves base scales only. -/
theorem WellFormed.allAtoms_derivation (wf : r.WellFormed) {derivation : Expr ScaleId}
    (known : ∀ id ∈ derivation.atoms, r.HasScale id) :
    (derivation.compositeWith r.derivation?).AllAtoms r.IsBaseScale := by
  refine Expr.allAtoms_compositeWith ?_ ?_
  · intro id member elementary
    obtain ⟨scale, found⟩ := known id member
    exact isBaseScale_of_derivation? found elementary
  · intro id _ definition derived
    exact (wf.derivations id definition derived).mono fun _ part => part.1

/-- Expanding a tree over known units leaves scaled units only. -/
theorem WellFormed.allAtoms_reduce (wf : r.WellFormed) {e : Expr UnitId}
    (known : ∀ id ∈ e.atoms, r.HasUnit id) :
    (r.reduce e).composite.AllAtoms r.IsScaledUnit := by
  refine Expr.allAtoms_compositeWith ?_ ?_
  · intro id member elementary
    obtain ⟨unit, found⟩ := known id member
    exact isScaledUnit_of_expansion? found elementary
  · intro id _ definition derived
    exact (wf.expansions id definition derived).mono fun _ part => part.1

/-- Trees without alternative names are flattened as they are. -/
theorem reduce_composite_of_plain {e : Expr UnitId}
    (plain : ∀ id ∈ e.atoms, r.expansion? id = none) : (r.reduce e).composite = e.composite := by
  refine Expr.value_congr fun id member => ?_
  rw [plain id member, Option.getD_none]

/-! ### What each addition keeps -/

theorem IsBaseScale.withScale {id : ScaleId} (base : r.IsBaseScale id) (new : Scale) :
    (r.withScale new).IsBaseScale id := by
  obtain ⟨scale, found, underived⟩ := base
  exact ⟨scale, scale?_withScale_of_some found, underived⟩

theorem IsScaledUnit.withUnit {id : UnitId} (scaled : r.IsScaledUnit id) (new : NamedUnit) :
    (r.withUnit new).IsScaledUnit id := by
  obtain ⟨symbol, scale, factor, found⟩ := scaled
  exact ⟨symbol, scale, factor, unit?_withUnit_of_some found⟩

theorem wellFormed_empty (tag : Nat) : (Registry.empty tag).WellFormed where
  scaleNames name id := by simp [Registry.empty, scale?]
  unitSymbols symbol id := by simp [Registry.empty, unit?]
  scaled id symbol scale factor found := by simp [Registry.empty, unit?] at found
  derivations id derivation found := by simp [Registry.empty, derivation?, scale?] at found
  expansions id expansion found := by simp [Registry.empty, expansion?, unit?] at found
  conversions c member := by cases member

theorem WellFormed.withScale (wf : r.WellFormed) {new : Scale}
    (free : r.scaleNames.lookup new.name = none)
    (expanded : ∀ derivation, new.derivation = some derivation →
      derivation.AllAtoms r.IsBaseScale) : (r.withScale new).WellFormed where
  scaleNames := by
    -- The table is extended as the list of scales is.
    have extended := wf.scaleNames.cons ⟨r.tag, r.scales.length⟩ free (by simp [scale?_next])
    have same : (fun id => ((r.withScale new).scale? id).map (·.name)) = fun id =>
        if id = ⟨r.tag, r.scales.length⟩ then some new.name else (r.scale? id).map (·.name) := by
      funext id
      rw [scale?_withScale]
      split <;> rfl
    rw [same]
    exact extended
  unitSymbols := wf.unitSymbols
  scaled id symbol scale factor found := by
    obtain ⟨⟨family, known⟩, worth⟩ := wf.scaled id symbol scale factor found
    exact ⟨⟨family, scale?_withScale_of_some known⟩, worth⟩
  derivations id derivation found := by
    rw [derivation?_withScale] at found
    split at found
    next here =>
      -- The new scale: what it is derived from was there before.
      refine (expanded derivation found).mono fun part base => ⟨base.withScale new, ?_⟩
      obtain ⟨scale, known, -⟩ := base
      simpa [here] using index_lt_of_scale? known
    · exact (wf.derivations id derivation found).mono fun part ⟨base, earlier⟩ =>
        ⟨base.withScale new, earlier⟩
  expansions := wf.expansions
  conversions c member := by
    obtain ⟨⟨source, sourceKnown⟩, ⟨target, targetKnown⟩, distinct⟩ := wf.conversions c member
    exact ⟨⟨source, scale?_withScale_of_some sourceKnown⟩,
      ⟨target, scale?_withScale_of_some targetKnown⟩, distinct⟩

theorem WellFormed.withUnit (wf : r.WellFormed) {new : NamedUnit}
    (free : r.unitSymbols.lookup new.symbol = none)
    (worth : ∀ scale factor, new.meaning = .scaled scale factor →
      r.HasScale scale ∧ 0 < factor ∧ factor.fits = true)
    (expanded : ∀ expansion, new.meaning = .alternative expansion →
      expansion.AllAtoms r.IsScaledUnit) : (r.withUnit new).WellFormed where
  scaleNames := wf.scaleNames
  unitSymbols := by
    have extended := wf.unitSymbols.cons ⟨r.tag, r.units.length⟩ free (by simp [unit?_next])
    have same : (fun id => ((r.withUnit new).unit? id).map (·.symbol)) = fun id =>
        if id = ⟨r.tag, r.units.length⟩ then some new.symbol else (r.unit? id).map (·.symbol) := by
      funext id
      rw [unit?_withUnit]
      split <;> rfl
    rw [same]
    exact extended
  scaled id symbol scale factor found := by
    rw [unit?_withUnit] at found
    split at found
    next here =>
      -- The new unit: its worth was checked.
      obtain rfl := Option.some.inj found
      exact worth scale factor rfl
    · exact wf.scaled id symbol scale factor found
  derivations := wf.derivations
  expansions id expansion found := by
    obtain ⟨symbol, named⟩ := expansion?_eq_some_iff.mp found
    rw [unit?_withUnit] at named
    split at named
    next here =>
      -- The new unit: what it is short for was there before.
      obtain rfl := Option.some.inj named
      refine (expanded expansion rfl).mono fun part scaled => ⟨scaled.withUnit _, ?_⟩
      obtain ⟨_, _, _, known⟩ := scaled
      simpa [here] using index_lt_of_unit? known
    · refine (wf.expansions id expansion ?_).mono fun part ⟨scaled, earlier⟩ =>
        ⟨scaled.withUnit new, earlier⟩
      exact expansion?_eq_some_iff.mpr ⟨symbol, named⟩
  conversions := wf.conversions

theorem WellFormed.withConversion (wf : r.WellFormed) {c : ScaleConversion}
    (sourceKnown : r.HasScale c.source) (targetKnown : r.HasScale c.target)
    (distinct : c.source ≠ c.target) :
    (r.withConversion c).WellFormed where
  scaleNames := wf.scaleNames
  unitSymbols := wf.unitSymbols
  scaled := wf.scaled
  derivations := wf.derivations
  expansions := wf.expansions
  conversions other member := by
    rcases List.mem_append.mp member with before | new
    · exact wf.conversions other before
    · obtain rfl := List.mem_singleton.mp new
      exact ⟨sourceKnown, targetKnown, distinct⟩

theorem WellFormed.addition {after : Registry} (wf : r.WellFormed) (added : Addition r after) :
    after.WellFormed := by
  cases added with
  | baseScale name symbol free => exact wf.withScale free (by simp)
  | derivedScale name symbol derivation free known =>
    refine wf.withScale free fun expanded same => ?_
    -- What is stored has been expanded by the rules that the invariant is about.
    obtain rfl := Option.some.inj same
    exact wf.allAtoms_derivation known
  | scaledUnit symbol scale factor free known positive fits =>
    refine wf.withUnit free (fun family worth same => ?_) (by simp)
    cases same
    exact ⟨known, positive, fits⟩
  | alternative symbol e free known =>
    refine wf.withUnit free (by simp) fun expansion same => ?_
    cases same
    exact wf.allAtoms_reduce known
  | conversion c sourceKnown targetKnown distinct =>
    exact wf.withConversion sourceKnown targetKnown distinct

theorem Reachable.wellFormed (reachable : r.Reachable) : r.WellFormed :=
  reachable.induction wellFormed_empty fun _ _ wf added => wf.addition added

/-! ### The invariant spelled out -/

theorem nodup_of_indexes {kind : IdentKind} {tag : Nat} {names : List String}
    {table : List (String × Ident kind)}
    (indexes : ∀ name id, table.lookup name = some id ↔
      id.registry = tag ∧ names[id.index]? = some name) : names.Nodup := by
  refine List.nodup_iff_getElem?_ne_getElem?.mpr fun i j before bound same => ?_
  -- A name in two places would be found under two identifiers.
  have entry : names[j]? = some names[j] := List.getElem?_eq_getElem bound
  have first := (indexes names[j] ⟨tag, i⟩).mpr ⟨rfl, same.trans entry⟩
  have second := (indexes names[j] ⟨tag, j⟩).mpr ⟨rfl, entry⟩
  simp only [first, Option.some.injEq, Ident.mk.injEq] at second
  omega

theorem WellFormed.lookup_scaleNames (wf : r.WellFormed) (name : String) (id : ScaleId) :
    r.scaleNames.lookup name = some id ↔
      id.registry = r.tag ∧ (r.scales.map (·.name))[id.index]? = some name := by
  rw [wf.scaleNames name id]
  simp [scale?_eq_some_iff, and_assoc]

theorem WellFormed.lookup_unitSymbols (wf : r.WellFormed) (symbol : String) (id : UnitId) :
    r.unitSymbols.lookup symbol = some id ↔
      id.registry = r.tag ∧ (r.units.map (·.symbol))[id.index]? = some symbol := by
  rw [wf.unitSymbols symbol id]
  simp [unit?_eq_some_iff, and_assoc]

/-- After any declarations, names and symbols are distinct and the tables find each entry under its
own, named units are worth positive factors of scales that exist, stored derivations and expansions
are canonical trees over earlier base scales and earlier scaled units, and conversions join two
scales that exist. -/
theorem Reachable.consistent (reachable : r.Reachable) :
    (∀ name id, r.scaleNames.lookup name = some id ↔
      id.registry = r.tag ∧ ∃ scale, r.scales[id.index]? = some scale ∧ scale.name = name) ∧
    (∀ symbol id, r.unitSymbols.lookup symbol = some id ↔
      id.registry = r.tag ∧ ∃ unit, r.units[id.index]? = some unit ∧ unit.symbol = symbol) ∧
    (r.scales.map (·.name)).Nodup ∧ (r.units.map (·.symbol)).Nodup ∧
    (∀ unit ∈ r.units, ∀ scale factor, unit.meaning = .scaled scale factor →
      scale.registry = r.tag ∧ scale.index < r.scales.length ∧
        0 < factor ∧ factor.num.natAbs.Coprime factor.den ∧ factor.fits = true) ∧
    (∀ (index : Nat) (scale : Scale) (derivation : Composite ScaleId),
      r.scales[index]? = some scale → scale.derivation = some derivation →
      (Expr.ofComposite derivation).isCanonical = true ∧
        ∀ id ∈ (Expr.ofComposite derivation).atoms, id.registry = r.tag ∧ id.index < index ∧
          ∃ base, r.scales[id.index]? = some base ∧ base.isBase = true) ∧
    (∀ (index : Nat) (unit : NamedUnit) (expansion : Composite UnitId),
      r.units[index]? = some unit → unit.meaning = .alternative expansion →
      (Expr.ofComposite expansion).isCanonical = true ∧
        ∀ id ∈ (Expr.ofComposite expansion).atoms, id.registry = r.tag ∧ id.index < index ∧
          ∃ part scale factor, r.units[id.index]? = some part ∧
            part.meaning = .scaled scale factor) ∧
    (∀ c ∈ r.conversions, c.source.registry = r.tag ∧ c.source.index < r.scales.length ∧
      c.target.registry = r.tag ∧ c.target.index < r.scales.length ∧ c.source ≠ c.target) := by
  have wf := reachable.wellFormed
  refine ⟨?_, ?_, nodup_of_indexes wf.lookup_scaleNames, nodup_of_indexes wf.lookup_unitSymbols,
    ?_, ?_, ?_, ?_⟩
  · intro name id
    rw [wf.lookup_scaleNames]
    simp
  · intro symbol id
    rw [wf.lookup_unitSymbols]
    simp
  · intro unit member scale factor scaled
    obtain ⟨index, entry⟩ := List.mem_iff_getElem?.mp member
    have named : r.unit? ⟨r.tag, index⟩ = some ⟨unit.symbol, .scaled scale factor⟩ := by
      rw [unit?_eq_some_iff, ← scaled]
      exact ⟨rfl, entry⟩
    obtain ⟨⟨found, known⟩, positive, fits⟩ := wf.scaled _ _ scale factor named
    exact ⟨(scale?_eq_some_iff.mp known).1, index_lt_of_scale? known, positive, factor.reduced,
      fits⟩
  · intro index scale derivation entry derived
    refine ⟨Expr.isCanonical_ofComposite derivation, fun id member => ?_⟩
    have stored : r.derivation? ⟨r.tag, index⟩ = some derivation := by
      simp [derivation?, scale?, entry, derived]
    obtain ⟨⟨base, found, underived⟩, earlier⟩ :=
      wf.derivations _ derivation stored id (Expr.mem_atoms_ofComposite.mp member)
    obtain ⟨own, here⟩ := scale?_eq_some_iff.mp found
    exact ⟨own, earlier, base, here, by simp [Scale.isBase, underived]⟩
  · intro index unit expansion entry alternative
    refine ⟨Expr.isCanonical_ofComposite expansion, fun id member => ?_⟩
    have stored : r.expansion? ⟨r.tag, index⟩ = some expansion := by
      rw [expansion?_eq_some_iff, ← alternative]
      exact ⟨unit.symbol, unit?_eq_some_iff.mpr ⟨rfl, entry⟩⟩
    obtain ⟨⟨symbol, scale, factor, found⟩, earlier⟩ :=
      wf.expansions _ expansion stored id (Expr.mem_atoms_ofComposite.mp member)
    obtain ⟨own, here⟩ := unit?_eq_some_iff.mp found
    exact ⟨own, earlier, _, scale, factor, here, rfl⟩
  · intro c member
    obtain ⟨⟨source, sourceKnown⟩, ⟨target, targetKnown⟩, distinct⟩ := wf.conversions c member
    exact ⟨(scale?_eq_some_iff.mp sourceKnown).1, index_lt_of_scale? sourceKnown,
      (scale?_eq_some_iff.mp targetKnown).1, index_lt_of_scale? targetKnown, distinct⟩

/-- Lengths, areas and square metres. -/
def plots : Registry :=
  ((((empty 0).declared (.scale "distance" "L")).declared
    (.derivedScale "area" "A" (.mul [.atom ⟨0, 0⟩, .atom ⟨0, 0⟩]))).declared
    (.unit "m" ⟨0, 0⟩ 1 1)).declared (.alternative "sq" (.mul [.atom ⟨0, 0⟩, .atom ⟨0, 0⟩]))

/-- An area is defined by the base scale before it, and a square metre by the unit before it. Both are
found by their names. -/
theorem consistent_plots :
    plots.scaleNames.lookup "area" = some ⟨0, 1⟩ ∧ plots.unitSymbols.lookup "sq" = some ⟨0, 1⟩ ∧
      (plots.scales.map (·.name)).Nodup ∧ (plots.units.map (·.symbol)).Nodup ∧
      (Expr.ofComposite (.ofList [((⟨0, 0⟩ : ScaleId), 2)])).isCanonical = true ∧
      (∃ base, plots.scales[0]? = some base ∧ base.isBase = true) ∧
      (Expr.ofComposite (.ofList [((⟨0, 0⟩ : UnitId), 2)])).isCanonical = true ∧
      (∃ part scale factor, plots.units[0]? = some part ∧ part.meaning = .scaled scale factor) ∧
      ∀ c ∈ (Catalog.standard 0).conversions, c.source ≠ c.target := by
  have reachable : plots.Reachable := .declared (.declared (.declared (.declared (.empty 0) _) _) _) _
  obtain ⟨scaleNames, unitSymbols, names, symbols, -, derivations, expansions, -⟩ :=
    Reachable.consistent reachable
  obtain ⟨-, -, -, -, -, -, -, conversions⟩ :=
    Reachable.consistent (Catalog.reachable_standard 0)
  have area : plots.scales[1]? = some ⟨"area", "A", some (.ofList [(⟨0, 0⟩, 2)])⟩ := by
    decide +kernel
  have square : plots.units[1]? = some ⟨"sq", .alternative (.ofList [(⟨0, 0⟩, 2)])⟩ := by
    decide +kernel
  obtain ⟨areaCanonical, distances⟩ := derivations 1 _ _ area rfl
  obtain ⟨squareCanonical, metres⟩ := expansions 1 _ _ square rfl
  obtain ⟨-, -, base⟩ := distances ⟨0, 0⟩ (by decide +kernel)
  obtain ⟨-, -, part⟩ := metres ⟨0, 0⟩ (by decide +kernel)
  exact ⟨(scaleNames "area" ⟨0, 1⟩).mpr ⟨rfl, _, area, rfl⟩,
    (unitSymbols "sq" ⟨0, 1⟩).mpr ⟨rfl, _, square, rfl⟩, names, symbols, areaCanonical, base,
    squareCanonical, part, fun c member => (conversions c member).2.2.2.2⟩

end Metrology.Registry
