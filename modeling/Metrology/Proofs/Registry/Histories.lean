import Metrology.Proofs.Expr.Unfolding
import Metrology.Proofs.Registry.Growth

/-!
# Definitions as they were written

A registry keeps definitions expanded, and expanded by what it knew when they were declared. What
was written then is not kept; it is a matter of the history of declarations that led to the
registry. `writtenDerivation?` and `writtenExpansion?` look it up there.

At any time, what the registry keeps describes what was written (`describes_derivations`,
`describes_expansions`): each stored definition is the written one expanded by the stored ones, and
what was written mentions earlier entries only.
-/
namespace Metrology.Registry

open Metrology.Expr (Describes)

variable {kind : IdentKind}

/-! ### Histories -/

/-- The registry after some declarations, the latest of which comes first. -/
def after (tag : Nat) : List Declaration → Registry
  | [] => empty tag
  | d :: earlier => (after tag earlier).declared d

/-- Histories lead to the reachable registries. -/
theorem reachable_iff_after {r : Registry} :
    r.Reachable ↔ ∃ tag history, r = after tag history := by
  constructor
  · intro reachable
    induction reachable with
    | empty tag => exact ⟨tag, [], rfl⟩
    | declared _ d ih =>
      obtain ⟨tag, history, rfl⟩ := ih
      exact ⟨tag, d :: history, rfl⟩
  · rintro ⟨tag, history, rfl⟩
    induction history with
    | nil => exact .empty tag
    | cons d earlier ih => exact .declared ih d

theorem reachable_after (tag : Nat) (history : List Declaration) : (after tag history).Reachable :=
  reachable_iff_after.mpr ⟨tag, history, rfl⟩

/-- The tree that was passed for an identifier, if this is the identifier that was given out. -/
def passed? (outcome : Except UnitError (Ident kind × Registry)) (e : Expr (Ident kind))
    (id : Ident kind) : Option (Expr (Ident kind)) :=
  match outcome with
  | .ok (new, _) => if id = new then some e else none
  | .error _ => none

/-- The derivation that a declaration gives to a scale. -/
def passedDerivation? (r : Registry) (d : Declaration) (id : ScaleId) : Option (Expr ScaleId) :=
  match d with
  | .derivedScale name symbol derivation =>
    passed? (r.addDerivedScale name symbol derivation) derivation id
  | _ => none

/-- The expression that a declaration makes a named unit short for. -/
def passedExpansion? (r : Registry) (d : Declaration) (id : UnitId) : Option (Expr UnitId) :=
  match d with
  | .alternative symbol e => passed? (r.addAlternative symbol e) e id
  | _ => none

/-- What some declaration of a history has given to an identifier. -/
def written? (given? : Registry → Declaration → Ident kind → Option (Expr (Ident kind)))
    (tag : Nat) : List Declaration → Ident kind → Option (Expr (Ident kind))
  | [], _ => none
  | d :: earlier, id => (given? (after tag earlier) d id).or (written? given? tag earlier id)

/-- The derivation that a scale was declared with. -/
def writtenDerivation? : Nat → List Declaration → ScaleId → Option (Expr ScaleId) :=
  written? passedDerivation?

/-- The expression that an alternative name was declared for. -/
def writtenExpansion? : Nat → List Declaration → UnitId → Option (Expr UnitId) :=
  written? passedExpansion?

/-! ### What declarations keep -/

/-- Some view of the registry is as before. -/
def Keeps {β : Type} (view : Registry → β) (before later : Registry) : Prop :=
  view later = view before

instance {β : Type} (view : Registry → β) : IsPreorder Registry (Keeps view) where
  refl _ := rfl
  trans _ _ _ first second := Eq.trans second first

variable {r : Registry}

theorem expansion?_withUnit (unit : NamedUnit) (id : UnitId) :
    (r.withUnit unit).expansion? id = if id = ⟨r.tag, r.units.length⟩ then
      (match unit.meaning with
        | .alternative expansion => some expansion
        | .scaled _ _ => none)
    else r.expansion? id := by
  rw [expansion?, unit?_withUnit]
  by_cases new : id = ⟨r.tag, r.units.length⟩
  · obtain ⟨symbol, meaning⟩ := unit
    simp only [if_pos new]
    cases meaning <;> rfl
  · simp only [if_neg new]
    rfl

theorem derivation?_next : r.derivation? ⟨r.tag, r.scales.length⟩ = none := by
  simp [derivation?, scale?_next]

theorem expansion?_next : r.expansion? ⟨r.tag, r.units.length⟩ = none := by
  simp [expansion?, unit?_next]

theorem keeps_derivation? {d : Declaration}
    (other : ∀ name symbol derivation, d ≠ .derivedScale name symbol derivation) :
    Keeps derivation? r (r.declared d) := by
  refine Declaring.respects_declare d ?scale ?derivedScale ?scaledUnit ?alternative ?conversion r
  case scale =>
    intro before name symbol id later accepted
    obtain ⟨-, -, rfl⟩ := appendScale_eq_ok_iff.mp accepted
    -- A base scale has no derivation, and neither had its identifier when it was not in use.
    funext sought
    rw [derivation?_withScale]
    split
    next new => rw [new, derivation?_next]
    · rfl
  case derivedScale =>
    intro before name symbol derivation id later same
    exact absurd same (other name symbol derivation)
  case scaledUnit =>
    intro before symbol scale factor id later positive fits accepted
    obtain ⟨-, -, rfl⟩ := addScaledUnit_eq_ok accepted
    rfl
  case alternative =>
    intro before symbol e id later same accepted
    obtain ⟨-, -, rfl⟩ := addAlternative_eq_ok accepted
    rfl
  case conversion =>
    intro before source target forward backward later accepted
    obtain ⟨-, rfl⟩ := addConversion_eq_ok accepted
    rfl

theorem keeps_expansion? {d : Declaration} (other : ∀ symbol e, d ≠ .alternative symbol e) :
    Keeps expansion? r (r.declared d) := by
  refine Declaring.respects_declare d ?scale ?derivedScale ?scaledUnit ?alternative ?conversion r
  case scale =>
    intro before name symbol id later accepted
    obtain ⟨-, -, rfl⟩ := appendScale_eq_ok_iff.mp accepted
    rfl
  case derivedScale =>
    intro before name symbol derivation id later same accepted
    obtain ⟨-, -, rfl⟩ := addDerivedScale_eq_ok accepted
    rfl
  case scaledUnit =>
    intro before symbol scale factor id later positive fits accepted
    obtain ⟨-, -, rfl⟩ := addScaledUnit_eq_ok accepted
    -- A scaled unit is not short for anything, and neither was its identifier when it was not in use.
    funext sought
    rw [expansion?_withUnit]
    split
    next new => rw [new, expansion?_next]
    · rfl
  case alternative =>
    intro before symbol e id later same
    exact absurd same (other symbol e)
  case conversion =>
    intro before source target forward backward later accepted
    obtain ⟨-, rfl⟩ := addConversion_eq_ok accepted
    rfl

theorem HasScale.declared {id : ScaleId} (known : r.HasScale id) (d : Declaration) :
    (r.declared d).HasScale id := (grows_declared r d).hasScale known

theorem HasUnit.declared {id : UnitId} (known : r.HasUnit id) (d : Declaration) :
    (r.declared d).HasUnit id := (grows_declared r d).hasUnit known

/-! ### What a declaration gives -/

theorem declared_of_refused {β : Type} {declare : Registry → Except UnitError (β × Registry)}
    {error : UnitError} (refused : declare r = .error error) :
    ((discard (Declaring.step declare) : Declaring PUnit) r).2 = r := by
  rw [Declaring.snd_discard, Declaring.step, refused]

theorem declared_of_accepted {β : Type} {declare : Registry → Except UnitError (β × Registry)}
    {result : β} {later : Registry} (accepted : declare r = .ok (result, later)) :
    ((discard (Declaring.step declare) : Declaring PUnit) r).2 = later := by
  rw [Declaring.snd_discard, Declaring.step, accepted]

/-- A tree was accepted for a new identifier and has been stored as it was expanded before. -/
theorem describes_passed {before later : Ident kind → Prop}
    {stored storedLater : Ident kind → Option (Composite (Ident kind))}
    {written : Ident kind → Option (Expr (Ident kind))} {new : Ident kind} {e : Expr (Ident kind)}
    (describes : Describes before (·.index) written stored) (unknown : ¬ before new)
    (parts : ∀ part ∈ e.atoms, before part ∧ part.index < new.index)
    (wider : ∀ id, before id → later id)
    (storedNow : ∀ id, storedLater id = if id = new then some (e.compositeWith stored) else stored id) :
    Describes later (·.index) (fun id => (passed? (.ok (new, r)) e id).or (written id))
      storedLater := by
  have writtenNow : (fun id => (passed? (.ok (new, r)) e id).or (written id))
      = fun id => if id = new then some e else written id := by
    funext id
    by_cases here : id = new <;> simp [passed?, here]
  rw [writtenNow, funext storedNow]
  exact (describes.define unknown parts).mono wider

theorem describes_derivation?_declared {written : ScaleId → Option (Expr ScaleId)}
    (describes : Describes r.HasScale (·.index) written r.derivation?) (d : Declaration) :
    Describes (r.declared d).HasScale (·.index)
      (fun id => (r.passedDerivation? d id).or (written id)) (r.declared d).derivation? := by
  have wider := fun id (known : r.HasScale id) => known.declared d
  cases d with
  | derivedScale name symbol derivation =>
    simp only [passedDerivation?]
    cases outcome : r.addDerivedScale name symbol derivation with
    | error error =>
      -- Nothing was given to anyone, and the registry is as before.
      have same : r.declared (.derivedScale name symbol derivation) = r := declared_of_refused outcome
      rw [same]
      exact describes
    | ok accepted =>
      obtain ⟨new, later⟩ := accepted
      have same : r.declared (.derivedScale name symbol derivation) = later := declared_of_accepted outcome
      rw [same] at wider ⊢
      obtain ⟨⟨known, -⟩, rfl, rfl⟩ := addDerivedScale_eq_ok outcome
      apply describes_passed describes
      · simp [HasScale, scale?_next]
      · -- The parts have been declared, and so they come before the new scale.
        intro part member
        obtain ⟨scale, found⟩ := known part member
        exact ⟨⟨scale, found⟩, index_lt_of_scale? found⟩
      · exact wider
      · exact derivation?_withScale _
  | scale | unit | prefixedUnits | metricUnits | alternative | conversion =>
    rw [keeps_derivation? (by simp)]
    exact describes.mono wider

theorem describes_expansion?_declared {written : UnitId → Option (Expr UnitId)}
    (describes : Describes r.HasUnit (·.index) written r.expansion?) (d : Declaration) :
    Describes (r.declared d).HasUnit (·.index)
      (fun id => (r.passedExpansion? d id).or (written id)) (r.declared d).expansion? := by
  have wider := fun id (known : r.HasUnit id) => known.declared d
  cases d with
  | alternative symbol e =>
    simp only [passedExpansion?]
    cases outcome : r.addAlternative symbol e with
    | error error =>
      -- Nothing was given to anyone, and the registry is as before.
      have same : r.declared (.alternative symbol e) = r := declared_of_refused outcome
      rw [same]
      exact describes
    | ok accepted =>
      obtain ⟨new, later⟩ := accepted
      have same : r.declared (.alternative symbol e) = later := declared_of_accepted outcome
      rw [same] at wider ⊢
      obtain ⟨⟨known, -⟩, rfl, rfl⟩ := addAlternative_eq_ok outcome
      apply describes_passed describes
      · simp [HasUnit, unit?_next]
      · -- The parts have been declared, and so they come before the new name.
        intro part member
        obtain ⟨unit, found⟩ := known part member
        exact ⟨⟨unit, found⟩, index_lt_of_unit? found⟩
      · exact wider
      · exact expansion?_withUnit _
  | scale | derivedScale | unit | prefixedUnits | metricUnits | conversion =>
    rw [keeps_expansion? (by simp)]
    exact describes.mono wider

/-! ### What a history has given -/

theorem describes_derivations (tag : Nat) (history : List Declaration) :
    Describes (after tag history).HasScale (·.index) (writtenDerivation? tag history)
      (after tag history).derivation? := by
  induction history with
  | nil =>
    constructor
    · intro id
      simp [after, writtenDerivation?, written?, derivation?, scale?, empty]
    · rintro id e ⟨⟩
  | cons d earlier ih => exact describes_derivation?_declared ih d

theorem describes_expansions (tag : Nat) (history : List Declaration) :
    Describes (after tag history).HasUnit (·.index) (writtenExpansion? tag history)
      (after tag history).expansion? := by
  induction history with
  | nil =>
    constructor
    · intro id
      simp [after, writtenExpansion?, written?, expansion?, unit?, empty]
    · rintro id e ⟨⟩
  | cons d earlier ih => exact describes_expansion?_declared ih d

end Metrology.Registry
