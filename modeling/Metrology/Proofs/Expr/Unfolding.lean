import Mathlib.Tactic.Choose
import Metrology.Proofs.Composite.Atoms

/-!
# Definitions unfolded all the way

Atoms may be defined by trees over other atoms, and those by trees again. `Unfolded` says what is
left of a tree once every definition has been followed to its end, however deep definitions go.
Where definitions only mention earlier atoms there is such a tree (`Describes.exists_unfolded`) and
only one (`Unfolded.unique`).

Definitions can also be kept as composites that were expanded when they were made, each by the
composites there were then (`Describes`). Expanding a tree by these, one level deep, leads to the
same composite as unfolding it all the way.
-/
namespace Metrology.Expr

open Std

universe u v w

variable {α : Type u} {β : Type v}

/-! ### Substitution -/

mutual

/-- Replace every atom by a tree. -/
def substitute (f : α → Expr β) : Expr α → Expr β
  | noUnit => noUnit
  | atom a => f a
  | mul terms => mul (substituteTerms f terms)
  | frac num den => frac (num.substitute f) (den.substitute f)

/-- Replace every atom in the terms of a product. -/
def substituteTerms (f : α → Expr β) : List (Expr α) → List (Expr β)
  | [] => []
  | term :: terms => term.substitute f :: substituteTerms f terms

end

theorem substituteTerms_eq_map (f : α → Expr β) (terms : List (Expr α)) :
    substituteTerms f terms = terms.map (substitute f) := by
  induction terms with
  | nil => rfl
  | cons term terms ih => rw [substituteTerms, ih, List.map_cons]

/-- A tree in which atoms were replaced is read by reading what they were replaced by. -/
theorem value_substitute {G : Type w} [One G] [Mul G] [Div G] (f : α → Expr β) (g : β → G)
    (e : Expr α) : (e.substitute f).value g = e.value fun a => (f a).value g := by
  induction e using induct with
  | noUnit => rfl
  | atom a => rfl
  | mul terms ih =>
    change valueOfTerms g (substituteTerms f terms) = valueOfTerms _ terms
    induction terms with
    | nil => rfl
    | cons term terms later =>
      rw [substituteTerms, valueOfTerms, valueOfTerms, ih term (by simp),
        later fun other member => ih other (by simp [member])]
  | frac num den above below => rw [substitute, value, value, above, below]

theorem substitute_congr {f g : α → Expr β} {e : Expr α} (same : ∀ a ∈ e.atoms, f a = g a) :
    e.substitute f = e.substitute g := by
  induction e using induct with
  | noUnit => rfl
  | atom a => exact same a (by simp [atoms])
  | mul terms ih =>
    rw [substitute, substitute, substituteTerms_eq_map, substituteTerms_eq_map]
    refine congrArg mul (List.map_congr_left fun term member => ?_)
    exact ih term member fun a inside => same a (mem_atoms_mul.mpr ⟨term, member, inside⟩)
  | frac num den above below =>
    have top := above fun a member => same a (by simp [atoms, member])
    have bottom := below fun a member => same a (by simp [atoms, member])
    rw [substitute, substitute, top, bottom]

theorem mem_atoms_substitute {f : α → Expr β} {e : Expr α} {b : β} :
    b ∈ (e.substitute f).atoms ↔ ∃ a ∈ e.atoms, b ∈ (f a).atoms := by
  induction e using induct with
  | noUnit => simp [substitute, atoms]
  | atom a => simp [substitute, atoms]
  | mul terms ih =>
    rw [substitute, substituteTerms_eq_map, mem_atoms_mul]
    constructor
    · rintro ⟨_, replaced, inside⟩
      obtain ⟨term, member, rfl⟩ := List.mem_map.mp replaced
      obtain ⟨a, present, within⟩ := (ih term member).mp inside
      exact ⟨a, mem_atoms_mul.mpr ⟨term, member, present⟩, within⟩
    · rintro ⟨a, present, within⟩
      obtain ⟨term, member, inside⟩ := mem_atoms_mul.mp present
      exact ⟨term.substitute f, List.mem_map_of_mem member, (ih term member).mpr ⟨a, inside, within⟩⟩
  | frac num den above below =>
    simp only [substitute, atoms, List.mem_append, above, below, or_and_right, exists_or]

/-! ### Unfolding -/

variable {definition? : α → Option (Expr α)}

/-- The tree is what an atom stands for once definitions are followed to their end. -/
inductive Unfolds (definition? : α → Option (Expr α)) : α → Expr α → Prop
  | elementary {a : α} (undefined : definition? a = none) : Unfolds definition? a (atom a)
  | defined {a : α} {e : Expr α} {meaning : α → Expr α} (here : definition? a = some e)
      (parts : ∀ b ∈ e.atoms, Unfolds definition? b (meaning b)) :
      Unfolds definition? a (e.substitute meaning)

/-- The tree with every atom replaced by what it stands for in the end. -/
def Unfolded (definition? : α → Option (Expr α)) (e full : Expr α) : Prop :=
  ∃ meaning : α → Expr α, (∀ a ∈ e.atoms, Unfolds definition? a (meaning a)) ∧
    full = e.substitute meaning

theorem Unfolds.unique {a : α} {x y : Expr α} (first : Unfolds definition? a x)
    (second : Unfolds definition? a y) : x = y := by
  induction first generalizing y with
  | elementary undefined =>
    cases second with
    | elementary => rfl
    | defined here => simp [undefined] at here
  | @defined a e meaning here parts ih =>
    cases second with
    | elementary undefined => simp [undefined] at here
    | @defined _ other meanings there others =>
      obtain rfl : e = other := Option.some.inj (here.symm.trans there)
      exact substitute_congr fun b member => ih b member (others b member)

theorem Unfolded.unique {e x y : Expr α} (first : Unfolded definition? e x)
    (second : Unfolded definition? e y) : x = y := by
  obtain ⟨meaning, parts, rfl⟩ := first
  obtain ⟨other, others, rfl⟩ := second
  exact substitute_congr fun a member => (parts a member).unique (others a member)

/-- Nothing is left to be unfolded. -/
theorem Unfolds.undefined {a : α} {x : Expr α} (unfolds : Unfolds definition? a x) :
    ∀ b ∈ x.atoms, definition? b = none := by
  induction unfolds with
  | @elementary a undefined =>
    intro b member
    obtain rfl : b = a := by simpa [atoms] using member
    exact undefined
  | defined _ _ ih =>
    intro b member
    obtain ⟨c, present, inside⟩ := mem_atoms_substitute.mp member
    exact ih c present b inside

theorem Unfolded.undefined {e full : Expr α} (unfolded : Unfolded definition? e full) :
    ∀ b ∈ full.atoms, definition? b = none := by
  obtain ⟨meaning, parts, rfl⟩ := unfolded
  intro b member
  obtain ⟨a, present, inside⟩ := mem_atoms_substitute.mp member
  exact (parts a present).undefined b inside

/-! ### Definitions that were expanded when they were made -/

variable [Ord α] [TransOrd α]

/-- Each definition mentions known atoms of lower rank only and is kept expanded by the others. -/
structure Describes (Known : α → Prop) (rank : α → Nat) (definition? : α → Option (Expr α))
    (expand : α → Option (Composite α)) : Prop where
  expanded : ∀ a, expand a = (definition? a).map (·.compositeWith expand)
  earlier : ∀ a e, definition? a = some e → ∀ b ∈ e.atoms, Known b ∧ rank b < rank a

variable {Known : α → Prop} {rank : α → Nat} {expand : α → Option (Composite α)}

theorem Describes.mono (describes : Describes Known rank definition? expand) {Wider : α → Prop}
    (wider : ∀ a, Known a → Wider a) : Describes Wider rank definition? expand where
  expanded := describes.expanded
  earlier a e here b member := (describes.earlier a e here b member).imp_left (wider b)

/-- A new atom is defined by known ones; its definition is expanded by those there are. -/
theorem Describes.define [DecidableEq α] (describes : Describes Known rank definition? expand)
    {new : α} {e : Expr α} (unknown : ¬ Known new)
    (parts : ∀ b ∈ e.atoms, Known b ∧ rank b < rank new) :
    Describes Known rank (fun a => if a = new then some e else definition? a)
      (fun a => if a = new then some (e.compositeWith expand) else expand a) := by
  -- Known atoms are expanded as before, and so are trees over them.
  have same : ∀ x : Expr α, (∀ b ∈ x.atoms, Known b) → x.compositeWith expand = x.compositeWith
      fun a => if a = new then some (e.compositeWith expand) else expand a := by
    intro x known
    refine value_congr fun b member => ?_
    have other : b ≠ new := by
      rintro rfl
      exact unknown (known b member)
    simp [other]
  constructor
  · intro a
    by_cases isNew : a = new
    · simp only [if_pos isNew, Option.map_some]
      exact congrArg some (same e fun b member => (parts b member).1)
    · simp only [if_neg isNew]
      rw [describes.expanded a]
      refine Option.map_congr fun x here => ?_
      exact same x fun b member => (describes.earlier a x here b member).1
  · intro a x here
    by_cases isNew : a = new
    · simp only [if_pos isNew, Option.some.injEq] at here
      rw [← here, isNew]
      exact parts
    · simp only [if_neg isNew] at here
      exact describes.earlier a x here

/-- An atom can be unfolded, and unfolding it leads where expanding it does. -/
theorem Describes.exists_unfolds (describes : Describes Known rank definition? expand) (a : α) :
    ∃ full, Unfolds definition? a full ∧ full.composite = (expand a).getD (.single a) := by
  -- Definitions mention atoms of lower rank, so that unfolding comes to an end.
  induction size : rank a using Nat.strongRecOn generalizing a with
  | ind n ih =>
    cases here : definition? a with
    | none =>
      refine ⟨atom a, .elementary here, ?_⟩
      rw [describes.expanded a, here]
      rfl
    | some e =>
      have each : ∀ b, ∃ full, b ∈ e.atoms →
          Unfolds definition? b full ∧ full.composite = (expand b).getD (.single b) := by
        intro b
        by_cases member : b ∈ e.atoms
        · have lower := (describes.earlier a e here b member).2
          obtain ⟨full, holds⟩ := ih (rank b) (size ▸ lower) b rfl
          exact ⟨full, fun _ => holds⟩
        · exact ⟨noUnit, fun present => absurd present member⟩
      choose meaning holds using each
      refine ⟨e.substitute meaning, .defined here fun b member => (holds b member).1, ?_⟩
      rw [describes.expanded a, here]
      calc (e.substitute meaning).composite
          = e.value fun b => (meaning b).composite := value_substitute meaning Composite.single e
        _ = e.compositeWith expand := value_congr fun b member => (holds b member).2

/-- A tree can be unfolded, and unfolding it all the way leads to the same composite as expanding it
one level deep. -/
theorem Describes.exists_unfolded (describes : Describes Known rank definition? expand) (e : Expr α) :
    ∃ full, Unfolded definition? e full ∧ full.composite = e.compositeWith expand := by
  choose meaning holds using describes.exists_unfolds
  refine ⟨e.substitute meaning, ⟨meaning, fun a _ => (holds a).1, rfl⟩, ?_⟩
  calc (e.substitute meaning).composite
      = e.value fun a => (meaning a).composite := value_substitute meaning Composite.single e
    _ = e.compositeWith expand := value_congr fun a _ => (holds a).2

end Metrology.Expr
