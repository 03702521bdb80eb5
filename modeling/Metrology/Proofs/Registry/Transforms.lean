import Mathlib.Data.List.Pairwise
import Metrology.Proofs.Registry.Convertibility

/-!
# One transform for each ordered pair of scales

A conversion is declared only if none of its transforms is there already. No two conversions of a
reachable registry therefore have transforms for the same ordered pair of scales
(`Reachable.exclusive`), and the transform that a search finds is the one that was declared, in
whichever order (`Reachable.transform?_eq_some_iff`).
-/
namespace Metrology.Registry

variable {r : Registry} {f t : ScaleId} {affine : Affine Float}

/-- A transform is declared for the ordered pair of scales. -/
def TransformsBy (r : Registry) (f t : ScaleId) (affine : Affine Float) : Prop :=
  ∃ c ∈ r.conversions, c.transform? f t = some affine

/-- Two conversions that have no pair of scales in common. -/
def Apart (c d : ScaleConversion) : Prop := ∀ f t, c.transform? f t = none ∨ d.transform? f t = none

instance : Std.Symm Apart := ⟨fun _ _ apart f t => (apart f t).symm⟩

/-- All conversions of a registry are apart from each other. -/
def Exclusive (r : Registry) : Prop := r.conversions.Pairwise Apart

/-- A conversion is apart from all those that have none of its transforms. -/
theorem apart_of_free {c d : ScaleConversion} (member : d ∈ r.conversions)
    (free : r.hasTransform c.source c.target = false)
    (freeBack : c.backward.isSome = true → r.hasTransform c.target c.source = false) :
    Apart d c := by
  have absent : ∀ {f t}, r.hasTransform f t = false → d.transform? f t = none := by
    intro f t none
    simpa using List.any_eq_false.mp none d member
  intro f t
  by_cases forward : f = c.source ∧ t = c.target
  · obtain ⟨rfl, rfl⟩ := forward
    exact .inl (absent free)
  by_cases back : f = c.target ∧ t = c.source
  · obtain ⟨rfl, rfl⟩ := back
    cases declared : c.backward with
    | none => exact .inr (by simp [ScaleConversion.transform?, forward, declared])
    | some _ => exact .inl (absent (freeBack (by simp [declared])))
  · exact .inr (by simp [ScaleConversion.transform?, forward, back])

theorem Reachable.exclusive (reachable : r.Reachable) : r.Exclusive := by
  refine reachable.induction (fun _ => .nil) fun before later exclusive addition => ?_
  cases addition with
  | conversion c _ _ _ _ _ free freeBack =>
    refine List.pairwise_append.mpr ⟨exclusive, List.pairwise_singleton _ _, ?_⟩
    intro d member other same
    obtain rfl := List.mem_singleton.mp same
    exact apart_of_free member free freeBack
  | baseScale | derivedScale | scaledUnit | alternative => exact exclusive

/-- What one conversion declares for a pair of scales no other one does. -/
theorem Exclusive.eq_of_transform? (exclusive : r.Exclusive) {c d : ScaleConversion}
    (first : c ∈ r.conversions) (second : d ∈ r.conversions) {other : Affine Float}
    (here : c.transform? f t = some affine) (there : d.transform? f t = some other) : c = d := by
  by_contra differ
  have apart := exclusive.forall first second differ f t
  simp [here, there] at apart

/-- The search finds what has been declared. -/
theorem Exclusive.transform?_eq_some_iff (exclusive : r.Exclusive) :
    r.transform? f t = some affine ↔ r.TransformsBy f t affine := by
  refine ⟨exists_of_transform?_eq_some, ?_⟩
  rintro ⟨c, member, here⟩
  cases found : r.transform? f t with
  | none => exact absurd ⟨c, member, affine, here⟩ (transform?_eq_none_iff.mp found)
  | some other =>
    obtain ⟨d, present, there⟩ := exists_of_transform?_eq_some found
    obtain rfl := exclusive.eq_of_transform? member present here there
    rw [← there, here]

end Metrology.Registry
