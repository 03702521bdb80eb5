import Mathlib.Data.List.Nodup
import Mathlib.Data.List.Perm.Basic
import Metrology.Proofs.Registry.Isolation
import Metrology.Proofs.Registry.OwnUnits
import Metrology.Proofs.Registry.SeveralRegistries
import Metrology.Proofs.Registry.StandardUnits
import Metrology.Shared

/-!
# Registries of a program

A program makes registries, declares in them, drops them or installs one of them for all to use. The
tags of the registries that it has are those of the times at which they were made (`Distinct`), so
that they differ as long as the counter has not gone around (`Makes.distinct`). The registries of a
program are several registries then, each the only one with its tag, and no registry takes a unit that
another one has built (`Makes.isolated`). The counter goes around after 2³² registries; the one that is
made next has the tag of the first (`exists_tag_again`).
-/
namespace Metrology

open Composite Registry

/-- What a program has: registries in which it can still declare, and what registries share. -/
structure Program where
  shared : Shared := {}
  owned : List Registry := []

/-- All registries that there are. -/
def Program.registries (p : Program) : List Registry := p.shared.settled.toList ++ p.owned

/-- What a program may have after it has made so many registries. -/
inductive Makes : Nat → Program → Prop
  | start : Makes 0 {}
  | create {n : Nat} {p : Program} (before : Makes n p) :
      Makes (n + 1) ⟨p.shared.create.2, p.shared.create.1 :: p.owned⟩
  | createStandard {n : Nat} {p : Program} (before : Makes n p) :
      Makes (n + 1) ⟨p.shared.createStandard.2, p.shared.createStandard.1 :: p.owned⟩
  | settle {n : Nat} {p : Program} (before : Makes n p) (unsettled : p.shared.settled = none) :
      Makes (n + 1) ⟨p.shared.get.2, p.owned⟩
  | declare {n : Nat} {p : Program} {r : Registry} {others : List Registry} (before : Makes n p)
      (chosen : p.owned.Perm (r :: others)) (d : Declaration) :
      Makes n ⟨p.shared, r.declared d :: others⟩
  | install {n : Nat} {p : Program} {shared : Shared} {r : Registry} {others : List Registry}
      (before : Makes n p) (chosen : p.owned.Perm (r :: others))
      (installed : p.shared.install r = .ok shared) : Makes n ⟨shared, others⟩
  | drop {n : Nat} {p : Program} {r : Registry} {others : List Registry} (before : Makes n p)
      (chosen : p.owned.Perm (r :: others)) : Makes n ⟨p.shared, others⟩

/-! ### Tags -/

/-- After so many registries have been made, those that are left differ in their tags. -/
structure Distinct (made : Nat) (registries : List Registry) : Prop where
  reachable : ∀ r ∈ registries, r.Reachable
  tags : made ≤ 4294967296 → (registries.map Registry.tag).Nodup
  below : made ≤ 4294967296 → ∀ r ∈ registries, r.tag < made

variable {n : Nat} {p : Program} {r s : Registry} {registries others : List Registry} {u w : Unit}

theorem distinct_nil : Distinct 0 [] where
  reachable := by simp
  tags := by simp
  below := by simp

namespace Distinct

theorem perm (distinct : Distinct n registries) (same : registries.Perm others) :
    Distinct n others where
  reachable r member := distinct.reachable r (same.mem_iff.mpr member)
  tags few := (same.map Registry.tag).nodup_iff.mp (distinct.tags few)
  below few r member := distinct.below few r (same.mem_iff.mpr member)

/-- A registry that is made now has a tag of its own. -/
theorem cons (distinct : Distinct n registries) (reachable : r.Reachable)
    (tag : r.tag = n % 4294967296) : Distinct (n + 1) (r :: registries) where
  reachable := List.forall_mem_cons.mpr ⟨reachable, distinct.reachable⟩
  tags few := by
    have fewBefore : n ≤ 4294967296 := by omega
    refine List.nodup_cons.mpr ⟨fun taken => ?_, distinct.tags fewBefore⟩
    obtain ⟨s, member, same⟩ := List.mem_map.mp taken
    have earlier := distinct.below fewBefore s member
    omega
  below few := by
    refine List.forall_mem_cons.mpr ⟨by omega, fun s member => ?_⟩
    have earlier := distinct.below (by omega) s member
    omega

theorem tail (distinct : Distinct n (r :: registries)) : Distinct n registries where
  reachable s member := distinct.reachable s (List.mem_cons_of_mem r member)
  tags few := (List.nodup_cons.mp (distinct.tags few)).2
  below few s member := distinct.below few s (List.mem_cons_of_mem r member)

theorem declared (distinct : Distinct n (r :: registries)) (d : Declaration) :
    Distinct n (r.declared d :: registries) where
  reachable := by
    obtain ⟨first, later⟩ := List.forall_mem_cons.mp distinct.reachable
    exact List.forall_mem_cons.mpr ⟨first.declared d, later⟩
  tags few := by
    rw [List.map_cons, tag_declared]
    exact distinct.tags few
  below few := by
    obtain ⟨first, later⟩ := List.forall_mem_cons.mp (distinct.below few)
    exact List.forall_mem_cons.mpr ⟨by rwa [tag_declared], later⟩

end Distinct

theorem Shared.get_of_unsettled {shared : Shared} (unsettled : shared.settled = none) :
    shared.get = (shared.createStandard.1, ⟨shared.createStandard.2.nextTag,
      some shared.createStandard.1⟩) := by
  rw [get, unsettled]

theorem Shared.install_eq_ok_iff {shared chosen : Shared} :
    shared.install r = .ok chosen ↔ shared.settled = none ∧ chosen = ⟨shared.nextTag, some r⟩ := by
  rw [install]
  cases shared.settled with
  | none => simp [eq_comm]
  | some settled => simp

theorem Makes.nextTag (makes : Makes n p) : p.shared.nextTag = n % 4294967296 := by
  have counted (m k : Nat) (before : m = k % 4294967296) :
      (m + 1) % 4294967296 = (k + 1) % 4294967296 := by omega
  induction makes with
  | start => rfl
  | create _ ih | createStandard _ ih => exact counted _ _ ih
  | settle _ unsettled ih =>
    rw [Shared.get_of_unsettled unsettled]
    exact counted _ _ ih
  | declare _ _ _ ih | drop _ _ ih => exact ih
  | install _ _ installed ih =>
    obtain ⟨-, rfl⟩ := Shared.install_eq_ok_iff.mp installed
    exact ih

/-- The registries of a program in which one has been chosen. -/
theorem Program.registries_perm (chosen : p.owned.Perm (r :: others)) :
    p.registries.Perm (r :: (p.shared.settled.toList ++ others)) :=
  (chosen.append_left _).trans List.perm_middle

theorem Makes.distinct (makes : Makes n p) : Distinct n p.registries := by
  -- Each step adds a registry, declares in one that has been chosen, or moves or drops it.
  have standard {n : Nat} {p : Program} (before : Makes n p) :
      p.shared.createStandard.1.tag = n % 4294967296 :=
    (Catalog.tag_standard p.shared.nextTag).trans before.nextTag
  induction makes with
  | start => exact distinct_nil
  | create before ih =>
    exact (ih.cons (.empty _) before.nextTag).perm List.perm_middle.symm
  | createStandard before ih =>
    exact (ih.cons (Catalog.reachable_standard _) (standard before)).perm List.perm_middle.symm
  | @settle n p before unsettled ih =>
    have owned : p.registries = p.owned := by rw [Program.registries, unsettled]; rfl
    rw [owned] at ih
    rw [Program.registries, Shared.get_of_unsettled unsettled]
    exact ih.cons (Catalog.reachable_standard _) (standard before)
  | declare _ chosen d ih =>
    exact ((ih.perm (Program.registries_perm chosen)).declared d).perm List.perm_middle.symm
  | install _ chosen installed ih =>
    obtain ⟨unsettled, rfl⟩ := Shared.install_eq_ok_iff.mp installed
    have moved := ih.perm (Program.registries_perm chosen)
    rw [unsettled] at moved
    exact moved
  | drop _ chosen ih => exact (ih.perm (Program.registries_perm chosen)).tail

/-! ### Several registries -/

/-- Registries by their tags, the others empty. -/
def Registries.ofList (registries : List Registry)
    (reachable : ∀ r ∈ registries, r.Reachable) : Registries where
  of tag := (registries.find? fun r => r.tag = tag).getD (empty tag)
  tag_of tag := by
    cases found : registries.find? fun r => r.tag = tag with
    | none => rfl
    | some r => simpa using List.find?_some found
  reachable_of tag := by
    cases found : registries.find? fun r => r.tag = tag with
    | none => exact .empty tag
    | some r => exact reachable r (List.mem_of_find?_eq_some found)

/-- The registries of a program are several registries, each under its own tag. -/
theorem Makes.exists_registries (makes : Makes n p) (few : n ≤ 4294967296) :
    ∃ all : Registries, ∀ r ∈ p.registries, all.of r.tag = r := by
  have distinct := makes.distinct
  refine ⟨.ofList p.registries distinct.reachable, fun r member => ?_⟩
  change (p.registries.find? fun s => s.tag = r.tag).getD (empty r.tag) = r
  cases found : p.registries.find? fun s => s.tag = r.tag with
  | none => exact absurd (List.find?_eq_none.mp found r member) (by simp)
  | some s =>
    have same : s.tag = r.tag := by simpa using List.find?_some found
    exact List.inj_on_of_nodup_map (distinct.tags few) (List.mem_of_find?_eq_some found) member same

/-! ### Isolation -/

namespace Registry

/-- A registry knows nothing that the other one has given out, and refuses what this has built. -/
structure IsolatedFrom (r s : Registry) : Prop where
  scale : ∀ id, s.HasScale id → ¬ r.HasScale id
  named : ∀ id, s.HasUnit id → ¬ r.HasUnit id
  unit : ∀ u, Built s u → u.isNone = false → r.RefusesUnit u
  units : ∀ u w, Built s u → u.isNone = false → r.RefusesUnits u w ∧ r.RefusesUnits w u
  baseUnit : ∀ u d, s.dimension u = .ok d → d.isDimensionless = false →
    ∃ id ∈ d.expr.atoms, r.baseUnit d = .error (.unknownScale id.text)

theorem Built.foreign (built : Built s u) (some : u.isNone = false) (differ : r.tag ≠ s.tag) :
    r.Foreign u := by
  obtain ⟨entry, member⟩ := List.exists_mem_of_ne_nil u.composite.entries fun none => by
    simp [Unit.isNone, isEmpty, none] at some
  obtain ⟨notZero, counted⟩ := mem_entries_iff.mp member
  -- What a registry builds is made of its own units.
  obtain ⟨symbol, scale, factor, found⟩ := built.elementary.of_mem member
  refine ⟨entry.1, Expr.mem_atoms_ofComposite.mpr (counted ▸ notZero), fun own => differ ?_⟩
  rw [← own, (unit?_eq_some_iff.mp found).1]

theorem isolatedFrom (reachable : s.Reachable) (differ : r.tag ≠ s.tag) : r.IsolatedFrom s where
  scale := by
    rintro id ⟨scale, found⟩
    refine not_hasScale_of_foreign fun own => differ ?_
    rw [← own, (scale?_eq_some_iff.mp found).1]
  named := by
    rintro id ⟨unit, found⟩
    refine not_hasUnit_of_foreign fun own => differ ?_
    rw [← own, (unit?_eq_some_iff.mp found).1]
  unit _ built some := refuses_unit (built.foreign some differ)
  units _ _ built some :=
    ⟨refuses_units (.inl (built.foreign some differ)), refuses_units (.inr (built.foreign some differ))⟩
  baseUnit _ _ measured some := by
    refine baseUnit_of_foreign some fun id member own => differ ?_
    rw [← own, reachable.registry_of_dimension measured id member]

end Registry

/-- Whatever a program has done, each of its registries is isolated from the others. -/
theorem Makes.isolated (makes : Makes n p) (few : n ≤ 4294967296) :
    p.registries.Pairwise fun r s => r.IsolatedFrom s ∧ s.IsolatedFrom r := by
  have distinct := makes.distinct
  refine (List.pairwise_map.mp (distinct.tags few)).imp_of_mem fun here there differ => ?_
  exact ⟨isolatedFrom (distinct.reachable _ there) differ,
    isolatedFrom (distinct.reachable _ here) (Ne.symm differ)⟩

/-! ### Around the counter -/

theorem exists_first_tag (n : Nat) : ∃ p, Makes (n + 1) p ∧ 0 ∈ p.owned.map Registry.tag := by
  induction n with
  | zero => exact ⟨_, .create .start, List.mem_cons_self⟩
  | succ n ih =>
    obtain ⟨p, makes, first⟩ := ih
    exact ⟨_, .create makes, List.mem_cons_of_mem _ first⟩

/-- One registry more than there are tags has the tag of another one. -/
theorem exists_tag_again :
    ∃ p, Makes 4294967297 p ∧ ¬ (p.registries.map Registry.tag).Nodup := by
  obtain ⟨p, makes, first⟩ := exists_first_tag 4294967295
  refine ⟨_, .create makes, fun distinct => ?_⟩
  have owned := distinct.sublist ((List.sublist_append_right _ _).map Registry.tag)
  have new : p.shared.create.1.tag = 0 := makes.nextTag
  rw [List.map_cons, new, List.nodup_cons] at owned
  exact owned.1 first

end Metrology
