import Metrology.Proofs.Registry.Convertibility
import Metrology.Proofs.Registry.Histories

/-!
# Which derived scales are new dimensions

A derivation says nothing new if it comes to no scale at all, to a single scale or to the reciprocal
of a single scale. Whether a derivation is the reciprocal of a scale is checked as it was written and
with all derived scales in it unfolded. Whether it is a single scale or none is only checked as it
was written. Hence no stored derivation is a reciprocal, but some may be single scales or none:
those that mention derived scales and only cancel once these are unfolded.
-/
namespace Metrology

open Std

variable {α : Type} [Ord α]

/-! ### Trees with one atom or none -/

namespace Expr

open Composite

/-- No atom at all, or just one. -/
def IsTrivial (e : Expr α) : Prop := e = noUnit ∨ ∃ a, e = atom a

/-- The reciprocal of just one atom. -/
def IsInverse (e : Expr α) : Prop := ∃ a, e = frac noUnit (atom a)

variable [TransOrd α] [LawfulEqOrd α]

theorem isTrivial_ofComposite_iff {c : Composite α} :
    (ofComposite c).IsTrivial ↔ c = 1 ∨ ∃ a, c = single a := by
  constructor
  · -- A composite can be read off the tree that it is spelled out as.
    rintro (none | ⟨a, one⟩)
    · exact .inl (by rw [← composite_ofComposite c, none, composite_noUnit])
    · exact .inr ⟨a, by rw [← composite_ofComposite c, one, composite_atom]⟩
  · rintro (rfl | ⟨a, rfl⟩)
    · exact .inl rfl
    · exact .inr ⟨a, rfl⟩

theorem isInverse_ofComposite_iff {c : Composite α} :
    (ofComposite c).IsInverse ↔ ∃ a, c = (single a)⁻¹ := by
  constructor
  · rintro ⟨a, one⟩
    refine ⟨a, ?_⟩
    rw [← composite_ofComposite c, one]
    exact one_div (single a)
  · rintro ⟨a, rfl⟩
    exact ⟨a, rfl⟩

/-- A tree that comes to one atom or none is expanded to the definition of that atom or to none. -/
theorem compositeWith_eq_of_isTrivial {e : Expr α} (expand : α → Option (Composite α))
    (trivial : e.reduce.IsTrivial) :
    e.compositeWith expand = 1 ∨ ∃ a, e.compositeWith expand = (expand a).getD (.single a) := by
  rw [compositeWith, ← eval_composite]
  rcases isTrivial_ofComposite_iff.mp trivial with none | ⟨a, one⟩
  · exact .inl (by rw [none, map_one])
  · exact .inr ⟨a, by rw [one, eval_single]⟩

end Expr

namespace Registry

open Composite Metrology.Expr

variable {r : Registry} {e full : Expr ScaleId}

/-! ### What is checked -/

/-- A derivation over known scales is checked as it is and as expanded by what is stored. -/
theorem addDerivedScale_eq_of_known (name symbol : String) (known : ∀ part ∈ e.atoms, r.HasScale part)
    (expanded : full.composite = e.compositeWith r.derivation?) :
    (e.reduce.IsInverse ∨ full.reduce.IsInverse →
      r.addDerivedScale name symbol e = .error (.inverseScale name)) ∧
    (¬ (e.reduce.IsInverse ∨ full.reduce.IsInverse) → e.reduce.IsTrivial →
      r.addDerivedScale name symbol e = .error (.trivialScale name)) ∧
    (¬ (e.reduce.IsInverse ∨ full.reduce.IsInverse) → ¬ e.reduce.IsTrivial →
      r.addDerivedScale name symbol e = r.appendScale ⟨name, symbol, some full.composite⟩) := by
  have noneUnknown : e.atoms.find? (fun part => (r.scale? part).isNone) = none := by
    simpa [HasScale, Option.ne_none_iff_exists'] using known
  -- What is asked of composites in the checks is asked of canonical trees here.
  have inverse : e.reduce.IsInverse ∨ full.reduce.IsInverse ↔
      (e.composite.reciprocal?.isSome ||
        (e.compositeWith r.derivation?).reciprocal?.isSome) = true := by
    simp only [Bool.or_eq_true, Option.isSome_iff_exists, reciprocal?_eq_some_iff, ← expanded]
    exact or_congr isInverse_ofComposite_iff isInverse_ofComposite_iff
  have trivial : e.reduce.IsTrivial ↔
      (e.composite.isEmpty || e.composite.single?.isSome) = true := by
    simp only [Bool.or_eq_true, isEmpty_eq_true_iff, Option.isSome_iff_exists, single?_eq_some_iff]
    exact isTrivial_ofComposite_iff
  simp only [addDerivedScale, noneUnknown]
  refine ⟨fun refused => ?_, fun passed refused => ?_, fun passed proper => ?_⟩
  · rw [if_pos (inverse.mp refused)]
  · rw [if_neg (mt inverse.mpr passed), if_pos (trivial.mp refused)]
  · rw [if_neg (mt inverse.mpr passed), if_neg (mt trivial.mpr proper), expanded]

/-- No stored derivation is the reciprocal of a scale. -/
theorem Reachable.not_isInverse_derivation? (reachable : r.Reachable) {id : ScaleId}
    {derivation : Composite ScaleId} (found : r.derivation? id = some derivation) :
    ¬ (ofComposite derivation).IsInverse := by
  refine Reachable.induction (motive := fun r => ∀ id derivation,
    r.derivation? id = some derivation → ¬ (ofComposite derivation).IsInverse) ?empty ?addition
    reachable id derivation found
  case empty =>
    intro tag id derivation found
    simp [Registry.empty, derivation?, scale?] at found
  case addition =>
    intro before later ih addition id derivation found
    cases addition with
    | baseScale =>
      rw [derivation?_withScale] at found
      split at found
      · cases found
      · exact ih id derivation found
    | derivedScale name symbol written free known notReciprocal notReciprocalExpanded =>
      rw [derivation?_withScale] at found
      split at found
      · -- The new scale was refused if its expansion were a reciprocal.
        obtain rfl := Option.some.inj found
        simp only [isInverse_ofComposite_iff, ← reciprocal?_eq_some_iff]
        simp [notReciprocalExpanded]
      · exact ih id derivation found
    | scaledUnit | alternative | conversion => exact ih id derivation found

/-- What comes to a single scale or none is not expanded to a reciprocal. -/
theorem Reachable.not_isInverse_of_isTrivial (reachable : r.Reachable)
    (expanded : full.composite = e.compositeWith r.derivation?) (trivial : e.reduce.IsTrivial) :
    ¬ full.reduce.IsInverse := by
  rw [Expr.reduce, expanded]
  rcases compositeWith_eq_of_isTrivial r.derivation? trivial with none | ⟨scale, one⟩
  · rw [none]
    rintro ⟨_, ⟨⟩⟩
  · rw [one]
    -- The single scale is a base scale, or its derivation was checked when it was declared.
    cases derived : r.derivation? scale with
    | none => rintro ⟨_, ⟨⟩⟩
    | some derivation => exact reachable.not_isInverse_derivation? derived

/-! ### What has been accepted -/

variable {tag : Nat} {history : List Declaration} {id : ScaleId} {written : Expr ScaleId}

/-- What a history has given was given by one of its declarations. -/
theorem exists_given_of_written? {kind : IdentKind} {id : Ident kind} {e : Expr (Ident kind)}
    {given : Registry → Declaration → Ident kind → Option (Expr (Ident kind))}
    (found : written? given tag history id = some e) :
    ∃ d earlier, given (after tag earlier) d id = some e := by
  induction history with
  | nil => cases found
  | cons d earlier ih =>
    rcases Option.or_eq_some_iff.mp found with now | ⟨-, before⟩
    · exact ⟨d, earlier, now⟩
    · exact ih before

theorem accepted_of_passedDerivation? {d : Declaration}
    (given : r.passedDerivation? d id = some written) :
    ∃ name symbol later, r.addDerivedScale name symbol written = .ok (id, later) := by
  unfold passedDerivation? at given
  split at given
  next name symbol derivation =>
    unfold passed? at given
    split at given
    next new later accepted =>
      split at given
      next same =>
        obtain rfl := Option.some.inj given
        exact ⟨name, symbol, later, same ▸ accepted⟩
      · cases given
    · cases given
  · cases given

/-- A written derivation is neither a single scale nor none, nor the reciprocal of a single one. -/
theorem proper_of_writtenDerivation? (found : writtenDerivation? tag history id = some written) :
    ¬ written.reduce.IsTrivial ∧ ¬ written.reduce.IsInverse := by
  obtain ⟨d, earlier, given⟩ := exists_given_of_written? found
  obtain ⟨name, symbol, later, accepted⟩ := accepted_of_passedDerivation? given
  obtain ⟨⟨-, notReciprocal, -, notEmpty, notSingle, -⟩, -⟩ := addDerivedScale_eq_ok accepted
  constructor
  · rw [Expr.reduce, isTrivial_ofComposite_iff, ← isEmpty_eq_true_iff]
    simp only [← single?_eq_some_iff, notEmpty, notSingle]
    simp
  · rw [Expr.reduce, isInverse_ofComposite_iff]
    simp only [← reciprocal?_eq_some_iff, notReciprocal]
    simp

/-- There is nothing to unfold in a tree over base scales. -/
theorem compositeWith_derivation?_of_base (base : ∀ part ∈ e.atoms, r.IsBaseScale part) :
    e.compositeWith r.derivation? = e.composite := by
  refine value_congr fun part member => ?_
  rw [(base part member).derivation?_eq_none, Option.getD_none]

/-! ### Main result -/

/-- A derivation over known scales is refused if it comes to the reciprocal of a scale, as written
or with everything in it unfolded, and if it comes to a single scale or none as written. All others
are stored unfolded, under a free name. Hence what is stored is never a reciprocal, and it is neither
a single scale nor none either, unless what was written mentions derived scales. -/
theorem derived_scales_are_new (tag : Nat) (history : List Declaration) :
    (∀ id derivation, (after tag history).derivation? id = some derivation →
      ∃ written full, writtenDerivation? tag history id = some written ∧
        Unfolded (writtenDerivation? tag history) written full ∧
        ofComposite derivation = full.reduce ∧
        ¬ written.reduce.IsTrivial ∧ ¬ written.reduce.IsInverse ∧ ¬ full.reduce.IsInverse ∧
        ((∀ part ∈ written.atoms, (after tag history).IsBaseScale part) →
          ¬ full.reduce.IsTrivial)) ∧
    ∀ name symbol e, (∀ part ∈ e.atoms, (after tag history).HasScale part) →
      ∃ full, Unfolded (writtenDerivation? tag history) e full ∧
        (e.reduce.IsInverse ∨ full.reduce.IsInverse →
          (after tag history).addDerivedScale name symbol e = .error (.inverseScale name)) ∧
        (e.reduce.IsTrivial →
          (after tag history).addDerivedScale name symbol e = .error (.trivialScale name)) ∧
        (¬ e.reduce.IsTrivial → ¬ e.reduce.IsInverse → ¬ full.reduce.IsInverse →
          (after tag history).addDerivedScale name symbol e
            = (after tag history).appendScale ⟨name, symbol, some full.composite⟩) ∧
        ((∀ part ∈ e.atoms, (after tag history).IsBaseScale part) → full.reduce = e.reduce) := by
  have reachable := reachable_after tag history
  have describes := describes_derivations tag history
  -- Over base scales there is nothing to unfold.
  have plain : ∀ {e full : Expr ScaleId},
      full.composite = e.compositeWith (after tag history).derivation? →
      (∀ part ∈ e.atoms, (after tag history).IsBaseScale part) → full.reduce = e.reduce :=
    fun expanded base => congrArg ofComposite
      (expanded.trans (compositeWith_derivation?_of_base base))
  constructor
  · intro id derivation stored
    obtain ⟨written, found, same⟩ := Option.map_eq_some_iff.mp ((describes.expanded id).symm.trans stored)
    obtain ⟨full, unfolded, expanded⟩ := describes.exists_unfolded written
    have proper := proper_of_writtenDerivation? found
    have isFull : ofComposite derivation = full.reduce :=
      congrArg ofComposite (same.symm.trans expanded.symm)
    exact ⟨written, full, found, unfolded, isFull, proper.1, proper.2,
      isFull ▸ reachable.not_isInverse_derivation? stored,
      fun base => plain expanded base ▸ proper.1⟩
  · intro name symbol e known
    obtain ⟨full, unfolded, expanded⟩ := describes.exists_unfolded e
    obtain ⟨inverse, trivial, proper⟩ :=
      addDerivedScale_eq_of_known name symbol known expanded
    refine ⟨full, unfolded, inverse, fun single => trivial ?_ single,
      fun notTrivial notInverse notInverseFull => proper ?_ notTrivial, plain expanded⟩
    · rintro (written | unfoldedInverse)
      · -- A tree is not a single atom and a reciprocal at once.
        obtain ⟨scale, isInverse⟩ := written
        rw [isInverse] at single
        rcases single with ⟨⟨⟩⟩ | ⟨_, ⟨⟩⟩
      · exact reachable.not_isInverse_of_isTrivial expanded single unfoldedInverse
    · exact not_or.mpr ⟨notInverse, notInverseFull⟩

/-- A speed is derived from a distance and a time; the latest declaration comes first. -/
def moving : List Declaration :=
  [.derivedScale "speed" "V" (.frac (.atom ⟨0, 0⟩) (.atom ⟨0, 1⟩)),
    .scale "time" "T",
    .scale "distance" "L"]

/-- A speed is a new dimension, the inverse of a speed is refused, and so is a distance that is
written with a time that cancels. -/
theorem speed_is_new :
    (∃ derivation, (after 0 moving).derivation? ⟨0, 2⟩ = some derivation ∧
      ¬ (ofComposite derivation).IsTrivial ∧ ¬ (ofComposite derivation).IsInverse) ∧
    (after 0 moving).addDerivedScale "slowness" "S" (.frac .noUnit (.atom ⟨0, 2⟩))
      = .error (.inverseScale "slowness") ∧
    (after 0 moving).addDerivedScale "length" "L"
        (.frac (.mul [.atom ⟨0, 0⟩, .atom ⟨0, 1⟩]) (.atom ⟨0, 1⟩))
      = .error (.trivialScale "length") := by
  have stored : (after 0 moving).derivation? ⟨0, 2⟩ = some (ofList [(⟨0, 0⟩, 1), (⟨0, 1⟩, -1)]) := by
    decide +kernel
  have given : writtenDerivation? 0 moving ⟨0, 2⟩ = some (.frac (.atom ⟨0, 0⟩) (.atom ⟨0, 1⟩)) := by
    decide +kernel
  obtain ⟨written, full, found, -, isFull, -, -, notInverse, new⟩ :=
    (derived_scales_are_new 0 moving).1 _ _ stored
  obtain rfl := Option.some.inj (given.symm.trans found)
  have base : ∀ part ∈ ([⟨0, 0⟩, ⟨0, 1⟩] : List ScaleId), (after 0 moving).IsBaseScale part := by
    simp only [List.forall_mem_cons, List.not_mem_nil, false_imp_iff, implies_true, and_true]
    exact ⟨⟨_, rfl, rfl⟩, ⟨_, rfl, rfl⟩⟩
  obtain ⟨unfolded, -, inverse, -⟩ := (derived_scales_are_new 0 moving).2 "slowness" "S"
    (.frac .noUnit (.atom ⟨0, 2⟩)) (by simpa [atoms] using ⟨_, rfl⟩)
  obtain ⟨-, -, -, trivial, -⟩ := (derived_scales_are_new 0 moving).2 "length" "L"
    (.frac (.mul [.atom ⟨0, 0⟩, .atom ⟨0, 1⟩]) (.atom ⟨0, 1⟩))
    (by simpa [atoms, atomsOfTerms] using ⟨⟨_, rfl⟩, ⟨_, rfl⟩⟩)
  exact ⟨⟨_, stored, isFull ▸ new base, isFull ▸ notInverse⟩, inverse (.inl ⟨⟨0, 2⟩, by decide +kernel⟩),
    trivial (.inr ⟨⟨0, 0⟩, by decide +kernel⟩)⟩

/-- A speed times a time comes to a distance once the speed is unfolded, and is accepted. -/
theorem speed_times_time_is_accepted :
    Unfolded (writtenDerivation? 0 moving) (.mul [.atom ⟨0, 2⟩, .atom ⟨0, 1⟩])
        (.mul [.frac (.atom ⟨0, 0⟩) (.atom ⟨0, 1⟩), .atom ⟨0, 1⟩]) ∧
      (.mul [.frac (.atom ⟨0, 0⟩) (.atom ⟨0, 1⟩), .atom ⟨0, 1⟩] : Expr ScaleId).reduce
        = .atom ⟨0, 0⟩ ∧
      (after 0 (.derivedScale "length" "L" (.mul [.atom ⟨0, 2⟩, .atom ⟨0, 1⟩]) :: moving)).derivation?
        ⟨0, 3⟩ = some (.single ⟨0, 0⟩) ∧
      (ofComposite (.single ⟨0, 0⟩ : Composite ScaleId)).IsTrivial := by
  have distance : Unfolds (writtenDerivation? 0 moving) ⟨0, 0⟩ (.atom ⟨0, 0⟩) :=
    .elementary (by decide +kernel)
  have time : Unfolds (writtenDerivation? 0 moving) ⟨0, 1⟩ (.atom ⟨0, 1⟩) :=
    .elementary (by decide +kernel)
  have given : writtenDerivation? 0 moving ⟨0, 2⟩ = some (.frac (.atom ⟨0, 0⟩) (.atom ⟨0, 1⟩)) := by
    decide +kernel
  have speed : Unfolds (writtenDerivation? 0 moving) ⟨0, 2⟩ (.frac (.atom ⟨0, 0⟩) (.atom ⟨0, 1⟩)) :=
    @Unfolds.defined _ _ _ _ .atom given (by simpa [atoms] using And.intro distance time)
  refine ⟨⟨fun id => if id = ⟨0, 2⟩ then .frac (.atom ⟨0, 0⟩) (.atom ⟨0, 1⟩) else .atom id, ?_, rfl⟩,
    by decide +kernel, by decide +kernel, .inr ⟨⟨0, 0⟩, rfl⟩⟩
  simpa [atoms, atomsOfTerms] using ⟨speed, time⟩

end Registry

end Metrology
