import Metrology.Proofs.Composite.Atoms
import Metrology.Proofs.Expr.Equality

/-!
# Atoms under other names

Giving the atoms of composites other names is a homomorphism, and what trees come to follows their
atoms. As long as no two atoms get the same name, nothing is lost: each atom is counted as before,
and a composite is empty, one atom or the reciprocal of one exactly if it was before.
-/
namespace Metrology

open Std

variable {α β : Type}

namespace Composite

variable [Ord α] [TransOrd α] [LawfulEqOrd α] [Ord β] [TransOrd β] [LawfulEqOrd β]
  {f : α → β} {c d : Composite α} {a : α} {b : β}

def rename (f : α → β) : Composite α →* Composite β := eval fun a => single (f a)

@[simp] theorem rename_single (f : α → β) (a : α) : rename f (single a) = single (f a) :=
  eval_single _ a

section Injective

variable (injective : Function.Injective f)
include injective

theorem count_rename (c : Composite α) (a : α) : (rename f c).count (f a) = c.count a := by
  have compared : ∀ b, compare (f b) (f a) = .eq ↔ compare b a = .eq := fun b => by
    rw [Std.compare_eq_iff_eq, Std.compare_eq_iff_eq, injective.eq_iff]
  -- Both sides are homomorphisms, and they agree on single atoms.
  have atoms : ∀ b, counting (f a) (single (f b)) = counting a (single b) := by
    intro b
    change Multiplicative.ofAdd ((single (f b)).count (f a)) = .ofAdd ((single b).count a)
    simp only [count_single, compared]
  have counted : counting (f a) (rename f c) = counting a c := by
    calc counting (f a) (rename f c)
        = eval (fun b => counting a (single b)) c := by simp only [rename, map_eval, atoms]
      _ = counting a c := by rw [← map_eval, Expr.eval_single_self]
  exact congrArg Multiplicative.toAdd counted

theorem rename_injective : Function.Injective (rename f) := by
  intro c d same
  refine ext_count fun a => ?_
  rw [← count_rename injective c, same, count_rename injective]

/-- Only an atom becomes an atom. -/
theorem rename_eq_single_iff : rename f c = single b ↔ ∃ a, c = single a ∧ f a = b := by
  constructor
  · intro same
    -- The atom that is left is the new name of one that occurs.
    have named : (rename f c).AllAtoms fun b => ∃ a, f a = b := by
      rw [rename, ← substitute_eq_eval]
      exact AllAtoms.substitute fun entry _ => allAtoms_single.mpr ⟨entry.1, rfl⟩
    obtain ⟨a, rfl⟩ := allAtoms_single.mp (same ▸ named)
    rw [← rename_single, (rename_injective injective).eq_iff] at same
    exact ⟨a, same, rfl⟩
  · rintro ⟨a, rfl, rfl⟩
    exact rename_single f a

@[simp] theorem isEmpty_rename : (rename f c).isEmpty = c.isEmpty := by
  rw [Bool.eq_iff_iff, isEmpty_eq_true_iff, isEmpty_eq_true_iff, ← map_one (rename f),
    (rename_injective injective).eq_iff]

@[simp] theorem single?_rename : (rename f c).single? = c.single?.map f := by
  ext b
  simp only [Option.map_eq_some_iff, single?_eq_some_iff, rename_eq_single_iff injective]

@[simp] theorem reciprocal?_rename : (rename f c).reciprocal? = c.reciprocal?.map f := by
  ext b
  simp only [Option.map_eq_some_iff, reciprocal?_eq_some_iff, ← inv_eq_iff_eq_inv, ← map_inv,
    rename_eq_single_iff injective]

end Injective

end Composite

namespace Expr

/-! ### Trees -/

theorem atoms_map (f : α → β) (e : Expr α) : (e.map f).atoms = e.atoms.map f := by
  induction e using induct with
  | noUnit => rfl
  | atom a => rfl
  | mul terms ih =>
    simp only [map, atoms]
    induction terms with
    | nil => rfl
    | cons term terms later =>
      rw [mapTerms, atomsOfTerms, atomsOfTerms, ih term (by simp),
        later fun other member => ih other (by simp [member]), List.map_append]
  | frac num den above below => rw [map, atoms, atoms, above, below, List.map_append]

theorem value_map {G : Type} [One G] [Mul G] [Div G] (f : α → β) (g : β → G) (e : Expr α) :
    (e.map f).value g = e.value fun a => g (f a) := by
  induction e using induct with
  | noUnit => rfl
  | atom a => rfl
  | mul terms ih =>
    simp only [map, value]
    induction terms with
    | nil => rfl
    | cons term terms later =>
      rw [mapTerms, valueOfTerms, valueOfTerms, ih term (by simp),
        later fun other member => ih other (by simp [member])]
  | frac num den above below => rw [map, value, value, above, below]

variable [Ord α] [TransOrd α] [LawfulEqOrd α] [Ord β] [TransOrd β] [LawfulEqOrd β]

theorem composite_map (f : α → β) (e : Expr α) :
    (e.map f).composite = Composite.rename f e.composite := by
  rw [composite, value_map, composite, map_value]
  simp only [Composite.rename_single]

/-- If definitions are renamed with the atoms, so is what an expanded tree comes to. -/
theorem compositeWith_map {f : α → β} {expand : α → Option (Composite α)}
    {expand' : β → Option (Composite β)}
    (renamed : ∀ a, expand' (f a) = (expand a).map (Composite.rename f)) (e : Expr α) :
    (e.map f).compositeWith expand' = Composite.rename f (e.compositeWith expand) := by
  rw [compositeWith, value_map, compositeWith, map_value]
  congr 1
  funext a
  rw [renamed]
  cases expand a <;> simp

end Expr

end Metrology
