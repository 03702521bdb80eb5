import Metrology.Proofs.Registry.Dimensions
import Metrology.Proofs.Registry.Refusals
import Metrology.Registry.Arithmetic

/-!
# Registries are isolated

A unit with an identifier of another registry in it is refused by all operations of a registry,
whatever else they are given, because units are checked before anything is made of them
(`refuses_unit`, `refuses_units`). Declarations that mention such an identifier are refused and
leave the registry as it was (`refuses_declarations`).
-/
namespace Metrology.Registry

open Declaring

/-- An identifier that has not been given out by the registry occurs in the unit. -/
def Foreign (r : Registry) (u : Unit) : Prop := ∃ id ∈ u.expr.atoms, id.registry ≠ r.tag

instance (r : Registry) (u : Unit) : Decidable (r.Foreign u) :=
  inferInstanceAs (Decidable (∃ id ∈ u.expr.atoms, id.registry ≠ r.tag))

/-- The outcome is that one of some units is refused as foreign. -/
def RefusesOneOf {β : Type} (r : Registry) (units : List Unit) (outcome : Except UnitError β) :
    Prop :=
  ∃ u ∈ units, r.Foreign u ∧ outcome = .error (.foreignUnit (r.unitText u))

variable {β γ : Type} {r : Registry} {u w : Unit} {units : List Unit}

/-! ### Units -/

theorem Foreign.check (foreign : r.Foreign u) : r.check u = .error (.foreignUnit (r.unitText u)) := by
  obtain ⟨id, member, other⟩ := foreign
  have present := Composite.mem_of_count (Expr.mem_atoms_ofComposite.mp member)
  exact if_pos (List.any_eq_true.mpr ⟨_, present, by simpa using other⟩)

/-- Units are refused for no other reason. -/
theorem check_cases (r : Registry) (u : Unit) : r.check u = .ok ⟨⟩ ∨ r.Foreign u := by
  rw [Registry.check]
  split
  next some =>
    obtain ⟨entry, member, other⟩ := List.any_eq_true.mp some
    obtain ⟨notZero, counted⟩ := Composite.mem_entries_iff.mp member
    exact .inr ⟨entry.1, Expr.mem_atoms_ofComposite.mpr (counted ▸ notZero), by simpa using other⟩
  · exact .inl rfl

theorem RefusesOneOf.bind {outcome : Except UnitError β} (refused : r.RefusesOneOf units outcome)
    (f : β → Except UnitError γ) : r.RefusesOneOf units (outcome >>= f) := by
  obtain ⟨u, member, foreign, rfl⟩ := refused
  exact ⟨u, member, foreign, rfl⟩

theorem refusesOneOf_check (foreign : r.Foreign u) : r.RefusesOneOf [u] (r.check u) :=
  ⟨u, by simp, foreign, foreign.check⟩

/-- Of two units that are checked one after the other it does not matter which one is foreign. -/
theorem refusesOneOf_checks (foreign : r.Foreign u ∨ r.Foreign w)
    (rest : Except UnitError β) : r.RefusesOneOf [u, w] (do r.check u; r.check w; rest) := by
  -- The unit that is checked first is the one that is reported, if it is foreign.
  rcases check_cases r u with passed | first
  · have second : r.Foreign w := by
      refine foreign.resolve_left fun first => ?_
      rw [first.check] at passed
      cases passed
    exact ⟨w, by simp, second, by rw [passed, second.check]; rfl⟩
  · exact ⟨u, by simp, first, by rw [first.check]; rfl⟩

theorem refusesOneOf_route (foreign : r.Foreign u ∨ r.Foreign w) :
    r.RefusesOneOf [u, w] (r.route u w) := refusesOneOf_checks foreign _

theorem refusesOneOf_convert (foreign : r.Foreign u ∨ r.Foreign w) (value : Float) :
    r.RefusesOneOf [u, w] (r.convert value u w) := (refusesOneOf_route foreign).bind _

/-- Whatever is asked of a single unit, the unit is refused. -/
structure RefusesUnit (r : Registry) (u : Unit) : Prop where
  scalesOf : r.RefusesOneOf [u] (r.scalesOf u)
  dimension : r.RefusesOneOf [u] (r.dimension u)
  factor : r.RefusesOneOf [u] (r.factor u)
  normalize : ∀ x, r.RefusesOneOf [u] (r.normalize ⟨x, u⟩)

theorem refuses_unit (foreign : r.Foreign u) : r.RefusesUnit u := by
  have scalesOf : r.RefusesOneOf [u] (r.scalesOf u) := (refusesOneOf_check foreign).bind _
  have dimension : r.RefusesOneOf [u] (r.dimension u) := scalesOf.bind _
  exact ⟨scalesOf, dimension, (refusesOneOf_check foreign).bind _, fun x => dimension.bind _⟩

/-- Whatever is done with two units, the one on the left and the one on the right, one of them is
refused. -/
structure RefusesUnits (r : Registry) (u w : Unit) : Prop where
  convert : ∀ x, r.RefusesOneOf [u, w] (r.convert x u w)
  convertible : r.convertible u w = false
  convertQuantity : ∀ x, r.RefusesOneOf [u, w] (r.convertQuantity ⟨x, u⟩ w)
  sum : ∀ x y, r.RefusesOneOf [w, u] (r.sum ⟨x, u⟩ ⟨y, w⟩)
  difference : ∀ x y, r.RefusesOneOf [w, u] (r.difference ⟨x, u⟩ ⟨y, w⟩)
  multiply : ∀ x y, r.RefusesOneOf [u, w] (r.multiply ⟨x, u⟩ ⟨y, w⟩)
  divide : ∀ x y, r.RefusesOneOf [u, w] (r.divide ⟨x, u⟩ ⟨y, w⟩)
  compareQuantities : ∀ x y, r.RefusesOneOf [w, u] (r.compareQuantities ⟨x, u⟩ ⟨y, w⟩)

theorem refuses_units (foreign : r.Foreign u ∨ r.Foreign w) : r.RefusesUnits u w where
  convert x := refusesOneOf_convert foreign x
  convertible := by
    obtain ⟨_, -, -, refused⟩ := refusesOneOf_route foreign
    rw [convertible, refused]
  convertQuantity x := (refusesOneOf_convert foreign x).bind _
  sum x y := (refusesOneOf_convert foreign.symm y).bind _
  difference x y := (refusesOneOf_convert foreign.symm y).bind _
  multiply x y := refusesOneOf_checks foreign _
  divide x y := refusesOneOf_checks foreign _
  compareQuantities x y := (refusesOneOf_convert foreign.symm y).bind _

/-- No relation holds between units of different registries, nor does it fail to hold. -/
theorem refusesOneOf_relates (foreign : r.Foreign u ∨ r.Foreign w)
    (test : Option Ordering → Bool) (x y : Float) :
    r.RefusesOneOf [w, u] (relates test r ⟨x, u⟩ ⟨y, w⟩) :=
  ((refuses_units foreign).compareQuantities x y).bind _

/-! ### Declarations -/

theorem not_hasScale_of_foreign {id : ScaleId} (other : id.registry ≠ r.tag) : ¬ r.HasScale id := by
  rintro ⟨scale, found⟩
  exact other (scale?_eq_some_iff.mp found).1

theorem not_hasUnit_of_foreign {id : UnitId} (other : id.registry ≠ r.tag) : ¬ r.HasUnit id := by
  rintro ⟨unit, found⟩
  exact other (unit?_eq_some_iff.mp found).1

theorem scaleName_eq_error {id : ScaleId} (unknown : ¬ r.HasScale id) :
    r.scaleName id = .error (.unknownScale id.text) := by
  rw [scaleName]
  split
  next scale found => exact absurd ⟨scale, found⟩ unknown
  · rfl

/-- The declaration is refused because of an unknown scale that it mentions, and changes nothing. -/
def RefusesScale (r : Registry) (d : Declaration) (mentioned : ScaleId → Prop) : Prop :=
  ∃ id, mentioned id ∧ ¬ r.HasScale id ∧ declare d r = (.error (.unknownScale id.text), r)

/-- The declaration is refused because of an unknown unit that it mentions, and changes nothing. -/
def RefusesNamedUnit (r : Registry) (d : Declaration) (mentioned : UnitId → Prop) : Prop :=
  ∃ id, mentioned id ∧ ¬ r.HasUnit id ∧ declare d r = (.error (.unknownUnit id.text), r)

/-- Declarations that mention identifiers of other registries anywhere are refused. -/
structure RefusesDeclarations (r : Registry) : Prop where
  unit : ∀ symbol scale num den, scale.registry ≠ r.tag → num ≠ 0 → den ≠ 0 →
    r.RefusesScale (.unit symbol scale num den) (· = scale)
  derivedScale : ∀ name symbol (derivation : Expr ScaleId),
    (∃ id ∈ derivation.atoms, id.registry ≠ r.tag) →
      r.RefusesScale (.derivedScale name symbol derivation) (· ∈ derivation.atoms)
  conversion : ∀ source target forward backward,
    source.registry ≠ r.tag ∨ target.registry ≠ r.tag →
      r.RefusesScale (.conversion source target forward backward) fun id => id = source ∨ id = target
  alternative : ∀ symbol (e : Expr UnitId), (∃ id ∈ e.atoms, id.registry ≠ r.tag) →
    r.RefusesNamedUnit (.alternative symbol e) (· ∈ e.atoms)

/-- A declaration of one thing that is refused leaves the registry as it is. -/
theorem declare_step_eq_error {declare : Registry → Except UnitError (β × Registry)}
    {error : UnitError} (refused : declare r = .error error) :
    (discard (step declare) : Declaring PUnit) r = (.error error, r) := by
  exact discard_eq_error_iff.mpr (step_eq_error_iff.mpr ⟨refused, rfl⟩)

theorem refuses_unit_declaration {symbol : String} {scale : ScaleId} {num den : UInt64}
    (unknown : ¬ r.HasScale scale) (numNonzero : num ≠ 0) (denNonzero : den ≠ 0) :
    declare (.unit symbol scale num den) r = (.error (.unknownScale scale.text), r) := by
  have made : Factor.ofWords? num den = some (mkRat num.toNat den.toNat) := by
    simp [Factor.ofWords?, numNonzero, denNonzero]
  apply declare_step_eq_error
  -- The factor is valid, so that the scale is looked up next.
  rw [addUnit, made]
  dsimp only
  rw [addScaledUnit, scaleName_eq_error unknown]
  rfl

/-- The first item that is looked up in vain is found. -/
theorem exists_find?_isNone {lookup : β → Option γ} {items : List β}
    (unknown : ∃ item ∈ items, ¬ ∃ found, lookup item = some found) :
    ∃ item ∈ items, (items.find? fun item => (lookup item).isNone) = some item ∧
      ¬ ∃ found, lookup item = some found := by
  cases first : items.find? fun item => (lookup item).isNone with
  | none =>
    obtain ⟨item, member, unknown⟩ := unknown
    have known : lookup item ≠ none := by simpa using List.find?_eq_none.mp first item member
    exact absurd (Option.ne_none_iff_exists'.mp known) unknown
  | some item =>
    have absent : lookup item = none := by simpa using List.find?_some first
    exact ⟨item, List.mem_of_find?_eq_some first, rfl, by simp [absent]⟩

theorem refuses_derivedScale {name symbol : String} {derivation : Expr ScaleId}
    (unknown : ∃ id ∈ derivation.atoms, ¬ r.HasScale id) :
    r.RefusesScale (.derivedScale name symbol derivation) (· ∈ derivation.atoms) := by
  obtain ⟨id, member, first, unknown⟩ := exists_find?_isNone unknown
  refine ⟨id, member, unknown, declare_step_eq_error ?_⟩
  rw [addDerivedScale, first]

theorem refuses_alternative {symbol : String} {e : Expr UnitId}
    (unknown : ∃ id ∈ e.atoms, ¬ r.HasUnit id) :
    r.RefusesNamedUnit (.alternative symbol e) (· ∈ e.atoms) := by
  obtain ⟨id, member, first, unknown⟩ := exists_find?_isNone unknown
  refine ⟨id, member, unknown, declare_step_eq_error ?_⟩
  rw [addAlternative, first]

theorem refuses_conversion {source target : ScaleId} {forward : Affine Float}
    {backward : Option (Affine Float)} (unknown : ¬ r.HasScale source ∨ ¬ r.HasScale target) :
    r.RefusesScale (.conversion source target forward backward)
      fun id => id = source ∨ id = target := by
  -- The source is looked up first.
  by_cases known : r.HasScale source
  · obtain ⟨scale, found⟩ := known
    have named := scaleName_eq_ok_iff.mpr ⟨scale, found, rfl⟩
    have targetUnknown := unknown.resolve_left fun unknown => unknown ⟨scale, found⟩
    refine ⟨target, .inr rfl, targetUnknown, ?_⟩
    rw [declare, conversion, step, addConversion, named, bind_ok, scaleName_eq_error targetUnknown]
    rfl
  · refine ⟨source, .inl rfl, known, ?_⟩
    rw [declare, conversion, step, addConversion, scaleName_eq_error known]
    rfl

theorem refuses_declarations (r : Registry) : r.RefusesDeclarations where
  unit _ _ _ _ other numNonzero denNonzero := ⟨_, rfl, not_hasScale_of_foreign other,
    refuses_unit_declaration (not_hasScale_of_foreign other) numNonzero denNonzero⟩
  derivedScale _ _ _ foreign :=
    refuses_derivedScale (foreign.imp fun _ => And.imp_right not_hasScale_of_foreign)
  conversion _ _ _ _ foreign :=
    refuses_conversion (foreign.imp not_hasScale_of_foreign not_hasScale_of_foreign)
  alternative _ _ foreign :=
    refuses_alternative (foreign.imp fun _ => And.imp_right not_hasUnit_of_foreign)

/-! ### Coherent units -/

/-- The dimensions that other registries measure are over their own scales. -/
theorem Reachable.registry_of_dimension {other : Registry} (reachable : other.Reachable)
    {d : Dimension} (measured : other.dimension u = .ok d) :
    ∀ id ∈ d.expr.atoms, id.registry = other.tag := by
  have elementary := elementary_of_dimension measured
  obtain rfl := Except.ok.inj (measured.symm.trans elementary.dimension_eq)
  intro id member
  have base := elementary.allAtoms_dimension reachable.wellFormed id
    (Expr.mem_atoms_ofComposite.mp member)
  obtain ⟨scale, found, -⟩ := base
  exact (scale?_eq_some_iff.mp found).1

/-- There is no coherent unit of a dimension over other scales. -/
theorem baseUnit_of_foreign {d : Dimension} (some : d.isDimensionless = false)
    (foreign : ∀ id ∈ d.expr.atoms, id.registry ≠ r.tag) :
    ∃ id ∈ d.expr.atoms, r.baseUnit d = .error (.unknownScale id.text) := by
  cases parts : d.composite.entries with
  | nil => simp [Dimension.isDimensionless, Composite.isEmpty, parts] at some
  | cons entry rest =>
    -- The scale that comes first is refused already.
    have present : entry ∈ d.composite.entries := by simp [parts]
    obtain ⟨notZero, counted⟩ := Composite.mem_entries_iff.mp present
    have member : entry.1 ∈ d.expr.atoms := Expr.mem_atoms_ofComposite.mpr (counted ▸ notZero)
    refine ⟨entry.1, member, ?_⟩
    rw [baseUnit, parts, List.mapM_cons,
      scaleName_eq_error (not_hasScale_of_foreign (foreign _ member))]
    rfl

/-! ### Main result -/

/-- Nothing of another registry gets through: neither units, on any side of any operation, nor
identifiers in declarations, even where they cancel out, nor dimensions. -/
theorem registries_are_isolated (r : Registry) :
    (∀ u, r.Foreign u → r.RefusesUnit u) ∧
    (∀ u w, r.Foreign u ∨ r.Foreign w → r.RefusesUnits u w) ∧
    r.RefusesDeclarations ∧
    ∀ (other : Registry) (u : Unit) (d : Dimension), other.Reachable → other.tag ≠ r.tag →
      other.dimension u = .ok d → d.isDimensionless = false →
        ∃ id ∈ d.expr.atoms, r.baseUnit d = .error (.unknownScale id.text) := by
  refine ⟨fun _ => refuses_unit, fun _ _ => refuses_units, refuses_declarations r, ?_⟩
  intro other u d reachable differ measured some
  refine baseUnit_of_foreign some fun id member same => differ ?_
  rw [← reachable.registry_of_dimension measured id member, same]

/-- Lengths in feet, in another registry than lengths in metres. -/
def imperial : Registry :=
  ((empty 1).declared (.scale "distance" "L")).declared (.unit "ft" ⟨1, 0⟩ 3048 10000)

/-- A foot has the same number as a metre, and so has its scale. Neither is taken for the other. -/
theorem foot_is_no_metre :
    imperial.dimension ⟨.single ⟨1, 0⟩⟩ = .ok ⟨.single ⟨1, 0⟩⟩ ∧
      metric.RefusesUnit ⟨.single ⟨1, 0⟩⟩ ∧
      metric.RefusesUnits ⟨.single ⟨1, 0⟩⟩ ⟨.single ⟨1, 0⟩⟩ ∧
      metric.RefusesUnits ⟨.single ⟨0, 0⟩⟩ ⟨.ofList [(⟨0, 0⟩, 1), (⟨1, 0⟩, -1)]⟩ ∧
      metric.RefusesScale
        (.derivedScale "angle" "A" (.frac (.atom ⟨1, 0⟩) (.atom ⟨1, 0⟩))) (· = ⟨1, 0⟩) ∧
      metric.baseUnit ⟨.single ⟨1, 0⟩⟩ = .error (.unknownScale "#0") := by
  obtain ⟨units, pairs, declarations, dimensions⟩ := registries_are_isolated metric
  have foot : metric.Foreign ⟨.single ⟨1, 0⟩⟩ := by decide +kernel
  have metresPerFoot : metric.Foreign ⟨.ofList [(⟨0, 0⟩, 1), (⟨1, 0⟩, -1)]⟩ := by decide +kernel
  have measured : imperial.dimension ⟨.single ⟨1, 0⟩⟩ = .ok ⟨.single ⟨1, 0⟩⟩ := by decide +kernel
  have reachable : imperial.Reachable := .declared (.declared (.empty 1) _) _
  refine ⟨measured, units _ foot, pairs _ _ (.inl foot), pairs _ _ (.inr metresPerFoot), ?_, ?_⟩
  · obtain ⟨id, member, refused⟩ := declarations.derivedScale "angle" "A"
      (.frac (.atom ⟨1, 0⟩) (.atom ⟨1, 0⟩)) ⟨⟨1, 0⟩, by decide +kernel, by decide +kernel⟩
    exact ⟨id, by simpa [Expr.atoms] using member, refused⟩
  · obtain ⟨id, member, refused⟩ := dimensions imperial _ _ reachable (by decide) measured rfl
    have only : ∀ id ∈ (Dimension.expr ⟨.single ⟨1, 0⟩⟩).atoms, id = ⟨1, 0⟩ := by decide +kernel
    obtain rfl := only id member
    exact refused

end Metrology.Registry
