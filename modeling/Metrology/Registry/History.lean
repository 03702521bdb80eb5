import Metrology.Catalog

/-!
# Histories of declarations

A declaration is a value, so that one can speak of all registries that declarations lead to: a
reachable registry starts out empty and goes through any declarations, those that fail included.
Whatever is made of declarations stays among these registries (`StaysReachable`), and the standard
catalog is one of them (`reachable_standard`).
-/
namespace Metrology

/-- A declaration with all that it mentions. -/
inductive Declaration where
  | scale (name symbol : String)
  | derivedScale (name symbol : String) (derivation : Expr ScaleId)
  | unit (symbol : String) (scale : ScaleId) (num den : UInt64)
  | prefixedUnits (symbol : String) (scale : ScaleId) (num den : UInt64)
      (prefixes : List MetricPrefix)
  | metricUnits (symbol : String) (scale : ScaleId) (num den : UInt64)
  | alternative (symbol : String) (e : Expr UnitId)
  | conversion (source target : ScaleId) (forward : Affine Float)
      (backward : Option (Affine Float))

/-- Make a declaration, without asking for the identifiers that it returns. -/
def Declaring.declare (d : Declaration) : Declaring PUnit :=
  match d with
  | .scale name symbol => discard (scale name symbol)
  | .derivedScale name symbol derivation => discard (derivedScale name symbol derivation)
  | .unit symbol scale num den => discard (unit symbol scale num den)
  | .prefixedUnits symbol scale num den prefixes =>
    discard (prefixedUnits symbol scale num den prefixes)
  | .metricUnits symbol scale num den => discard (metricUnits symbol scale num den)
  | .alternative symbol e => discard (alternative symbol e)
  | .conversion source target forward backward => conversion source target forward backward

namespace Registry

/-- The registry after a declaration, whether it has succeeded or not. -/
def declared (r : Registry) (d : Declaration) : Registry := (Declaring.declare d r).2

inductive Reachable : Registry → Prop
  | empty (tag : Nat) : Reachable (empty tag)
  | declared {r : Registry} (reachable : Reachable r) (d : Declaration) : Reachable (r.declared d)

end Registry

namespace Declaring

variable {β γ : Type}

/-- From a reachable registry, this leads to reachable registries only. -/
def StaysReachable (m : Declaring β) : Prop := ∀ r : Registry, r.Reachable → (m r).2.Reachable

theorem discard_apply (m : Declaring β) (r : Registry) :
    (discard m : Declaring PUnit) r = ((m r).1.map fun _ => ⟨⟩, (m r).2) := by
  change (Functor.map (Function.const β PUnit.unit) m : Declaring PUnit) r = _
  simp only [Functor.map, ExceptT.map, ExceptT.mk, StateT.bind, bind]
  rcases m r with ⟨result | error, after⟩ <;> rfl

theorem snd_discard (m : Declaring β) (r : Registry) : (discard m r).2 = (m r).2 := by
  rw [discard_apply]

theorem StaysReachable.bind {m : Declaring β} {f : β → Declaring γ} (first : StaysReachable m)
    (rest : ∀ result, StaysReachable (f result)) : StaysReachable (m >>= f) := by
  intro r reachable
  have middle := first r reachable
  change ((ExceptT.bindCont f (m r).1) (m r).2).2.Reachable
  cases (m r).1 with
  | ok result => exact rest result _ middle
  | error error => exact middle

/-- A declaration whose result is kept. -/
theorem staysReachable_of_declare {m : Declaring β} {d : Declaration} (same : declare d = discard m) :
    StaysReachable m := fun r reachable => by
  rw [← snd_discard, ← same]
  exact reachable.declared d

theorem staysReachable_scale (name symbol : String) : StaysReachable (scale name symbol) :=
  staysReachable_of_declare (d := .scale name symbol) rfl

theorem staysReachable_derivedScale (name symbol : String) (derivation : Expr ScaleId) :
    StaysReachable (derivedScale name symbol derivation) :=
  staysReachable_of_declare (d := .derivedScale name symbol derivation) rfl

theorem staysReachable_unit (symbol : String) (scale : ScaleId) (num den : UInt64) :
    StaysReachable (unit symbol scale num den) :=
  staysReachable_of_declare (d := .unit symbol scale num den) rfl

theorem staysReachable_metricUnits (symbol : String) (scale : ScaleId) (num den : UInt64) :
    StaysReachable (metricUnits symbol scale num den) :=
  staysReachable_of_declare (d := .metricUnits symbol scale num den) rfl

theorem staysReachable_conversion (source target : ScaleId) (forward : Affine Float)
    (backward : Option (Affine Float)) :
    StaysReachable (conversion source target forward backward) := fun _ reachable =>
  reachable.declared (.conversion source target forward backward)

end Declaring

open Declaring in
/-- The standard catalog is a history of declarations. -/
theorem Catalog.staysReachable_declare : StaysReachable declare := by
  unfold declare
  with_reducible repeat' first
    | refine StaysReachable.bind ?_ fun _ => ?_
    | exact staysReachable_scale _ _
    | exact staysReachable_derivedScale _ _ _
    | exact staysReachable_unit _ _ _ _
    | exact staysReachable_metricUnits _ _ _ _
    | exact staysReachable_conversion _ _ _ _

theorem Catalog.reachable_standard (tag : Nat) : (standard tag).Reachable :=
  staysReachable_declare _ (.empty tag)

end Metrology
