import Mathlib.Data.List.Forall2
import Metrology.Expr.Basic

/-!
# Steps that may fail, one after another

A series of steps succeeds exactly when each step does, and what comes out of it comes out of one
of them. The same holds of a tree whose atoms are changed by such steps, and an error that is reported
is the error of one of them (`Expr.reports_traverse`).
-/
namespace Metrology

/-! ### Steps that may fail -/

section Steps

variable {ε β γ : Type}

theorem bind_eq_ok {x : Except ε β} {f : β → Except ε γ} {c : γ} :
    (x >>= f) = .ok c ↔ ∃ b, x = .ok b ∧ f b = .ok c := by
  cases x <;> simp [bind, Except.bind]

theorem bind_ok {b : β} {f : β → Except ε γ} : (Except.ok b >>= f) = f b := rfl

theorem bind_eq_error {x : Except ε β} {f : β → Except ε γ} {error : ε} :
    (x >>= f) = .error error ↔ x = .error error ∨ ∃ b, x = .ok b ∧ f b = .error error := by
  cases x <;> simp [bind, Except.bind]

/-- Steps that all succeed succeed together, and each result comes from a step. -/
theorem exists_mapM_eq_ok {f : β → Except ε γ} {P : γ → Prop} {items : List β}
    (each : ∀ item ∈ items, ∃ result, f item = .ok result ∧ P result) :
    ∃ results, items.mapM f = .ok results ∧ ∀ result ∈ results, P result := by
  induction items with
  | nil => exact ⟨[], rfl, by simp⟩
  | cons item items ih =>
    obtain ⟨result, first, holds⟩ := each item (by simp)
    obtain ⟨results, rest, all⟩ := ih fun other member => each other (by simp [member])
    refine ⟨result :: results, ?_, by simpa [holds] using all⟩
    rw [List.mapM_cons, first, rest]
    rfl

theorem mapM_eq_ok_map {f : β → Except ε γ} {result : β → γ} {items : List β}
    (each : ∀ item ∈ items, f item = .ok (result item)) : items.mapM f = .ok (items.map result) := by
  induction items with
  | nil => rfl
  | cons item items ih =>
    rw [List.mapM_cons, each item (by simp), ih fun other member => each other (by simp [member])]
    rfl

/-- A series that fails reports the error of one of its steps. -/
theorem exists_of_mapM_eq_error {f : β → Except ε γ} {items : List β} {error : ε}
    (failed : items.mapM f = .error error) : ∃ item ∈ items, f item = .error error := by
  induction items with
  | nil => cases failed
  | cons item items ih =>
    rw [List.mapM_cons] at failed
    rcases bind_eq_error.mp failed with here | ⟨result, -, failed⟩
    · exact ⟨item, by simp, here⟩
    · -- Putting the results together cannot fail.
      rcases bind_eq_error.mp failed with later | ⟨results, -, ⟨⟩⟩
      obtain ⟨other, member, refused⟩ := ih later
      exact ⟨other, by simp [member], refused⟩

/-- Steps that have the same results item by item have the same results together. -/
theorem mapM_congr {f g : β → Except ε γ} {items : List β}
    (same : ∀ item ∈ items, f item = g item) : items.mapM f = items.mapM g := by
  induction items with
  | nil => rfl
  | cons item items ih =>
    rw [List.mapM_cons, List.mapM_cons, same item (by simp),
      ih fun other member => same other (by simp [member])]

theorem foldlM_congr {f g : γ → β → Except ε γ} {items : List β} {start : γ}
    (same : ∀ item ∈ items, ∀ state, f state item = g state item) :
    items.foldlM f start = items.foldlM g start := by
  induction items generalizing start with
  | nil => rfl
  | cons item items ih =>
    rw [List.foldlM_cons, List.foldlM_cons, same item (by simp)]
    apply bind_congr
    intro next
    exact ih fun other member => same other (by simp [member])

/-- What every step keeps, a series of steps keeps. -/
theorem keeps_foldlM {f : γ → β → Except ε γ} {P : γ → Prop}
    (step : ∀ state item next, P state → f state item = .ok next → P next) {items : List β}
    {start last : γ} (before : P start) (done : items.foldlM f start = .ok last) : P last := by
  induction items generalizing start with
  | nil =>
    obtain rfl : start = last := Except.ok.inj done
    exact before
  | cons item items ih =>
    rw [List.foldlM_cons] at done
    obtain ⟨next, first, rest⟩ := bind_eq_ok.mp done
    exact ih (step start item next before first) rest

/-- Steps succeed together exactly when they succeed one by one, each with its own result. -/
theorem mapM_eq_ok_iff {f : β → Except ε γ} {items : List β} {results : List γ} :
    items.mapM f = .ok results ↔
      List.Forall₂ (fun item result => f item = .ok result) items results := by
  induction items generalizing results with
  | nil =>
    rw [List.forall₂_nil_left_iff]
    exact ⟨fun done => (Except.ok.inj done).symm, fun same => congrArg Except.ok same.symm⟩
  | cons item items ih =>
    rw [List.forall₂_cons_left_iff, List.mapM_cons, bind_eq_ok]
    constructor
    · rintro ⟨result, first, rest⟩
      obtain ⟨others, later, same⟩ := bind_eq_ok.mp rest
      exact ⟨result, others, first, ih.mp later, (Except.ok.inj same).symm⟩
    · rintro ⟨result, others, first, later, rfl⟩
      exact ⟨result, first, bind_eq_ok.mpr ⟨others, ih.mpr later, rfl⟩⟩

theorem mapM_eq_ok_iff_of {f : β → Except ε γ} {R : β → γ → Prop}
    (each : ∀ item result, f item = .ok result ↔ R item result) {items : List β} {results : List γ} :
    items.mapM f = .ok results ↔ List.Forall₂ R items results := by
  rw [mapM_eq_ok_iff]
  exact ⟨fun paired => paired.imp fun item result => (each item result).mp,
    fun paired => paired.imp fun item result => (each item result).mpr⟩

theorem exists_of_forall₂_left {R : β → γ → Prop} {items : List β} {results : List γ}
    (paired : List.Forall₂ R items results) : ∀ item ∈ items, ∃ result ∈ results, R item result := by
  induction paired with
  | nil => simp
  | cons here _ ih =>
    intro item member
    rcases List.mem_cons.mp member with rfl | member
    · exact ⟨_, by simp, here⟩
    · obtain ⟨result, present, related⟩ := ih item member
      exact ⟨result, by simp [present], related⟩

theorem exists_of_forall₂_right {R : β → γ → Prop} {items : List β} {results : List γ}
    (paired : List.Forall₂ R items results) : ∀ result ∈ results, ∃ item ∈ items, R item result :=
  exists_of_forall₂_left paired.flip

end Steps

namespace Expr

universe u

/-- The atoms of a changed tree are results of the change. -/
theorem of_traverse_eq_ok {α : Type u} {β ε : Type} {f : α → Except ε β} {P : β → Prop} {e : Expr α}
    {changed : Expr β} (done : e.traverse f = .ok changed)
    (each : ∀ a b, f a = .ok b → P b) : ∀ b ∈ changed.atoms, P b := by
  induction e using induct generalizing changed with
  | noUnit =>
    obtain rfl : noUnit = changed := Except.ok.inj done
    simp [atoms]
  | atom a =>
    obtain ⟨b, here, same⟩ := bind_eq_ok.mp done
    obtain rfl : atom b = changed := Except.ok.inj same
    simpa [atoms] using each a b here
  | mul terms ih =>
    obtain ⟨changedTerms, here, same⟩ := bind_eq_ok.mp done
    obtain rfl : mul changedTerms = changed := Except.ok.inj same
    -- The induction goes on through the terms, which are visited from left to right.
    change ∀ b ∈ atomsOfTerms changedTerms, P b
    clear done same
    induction terms generalizing changedTerms with
    | nil =>
      obtain rfl : [] = changedTerms := Except.ok.inj here
      simp [atomsOfTerms]
    | cons term terms later =>
      obtain ⟨first, atFirst, rest⟩ := bind_eq_ok.mp here
      obtain ⟨others, atOthers, same⟩ := bind_eq_ok.mp rest
      obtain rfl : first :: others = changedTerms := Except.ok.inj same
      intro b member
      rcases List.mem_append.mp member with inFirst | inOthers
      · exact ih term (by simp) atFirst b inFirst
      · exact later (fun other present => ih other (by simp [present])) others atOthers b inOthers
  | frac num den above below =>
    obtain ⟨top, atTop, rest⟩ := bind_eq_ok.mp done
    obtain ⟨bottom, atBottom, same⟩ := bind_eq_ok.mp rest
    obtain rfl : frac top bottom = changed := Except.ok.inj same
    intro b member
    rcases List.mem_append.mp member with inTop | inBottom
    · exact above atTop b inTop
    · exact below atBottom b inBottom

/-- A change of a tree is taken over by one that succeeds where it does. -/
theorem traverse_eq_ok_of_imp {α : Type u} {β ε : Type} {f g : α → Except ε β} {e : Expr α}
    {changed : Expr β} (each : ∀ a b, f a = .ok b → g a = .ok b)
    (done : e.traverse f = .ok changed) : e.traverse g = .ok changed := by
  induction e using induct generalizing changed with
  | noUnit => exact done
  | atom a =>
    obtain ⟨b, here, same⟩ := bind_eq_ok.mp done
    exact bind_eq_ok.mpr ⟨b, each a b here, same⟩
  | mul terms ih =>
    obtain ⟨changedTerms, here, same⟩ := bind_eq_ok.mp done
    refine bind_eq_ok.mpr ⟨changedTerms, ?_, same⟩
    -- The induction goes on through the terms, which are visited from left to right.
    clear done same
    induction terms generalizing changedTerms with
    | nil => exact here
    | cons term terms later =>
      obtain ⟨first, atFirst, rest⟩ := bind_eq_ok.mp here
      obtain ⟨others, atOthers, same⟩ := bind_eq_ok.mp rest
      have first := ih term (by simp) atFirst
      have rest := later (fun other present => ih other (by simp [present])) others atOthers
      exact bind_eq_ok.mpr ⟨_, first, bind_eq_ok.mpr ⟨_, rest, same⟩⟩
  | frac num den above below =>
    obtain ⟨top, atTop, rest⟩ := bind_eq_ok.mp done
    obtain ⟨bottom, atBottom, same⟩ := bind_eq_ok.mp rest
    exact bind_eq_ok.mpr ⟨top, above atTop, bind_eq_ok.mpr ⟨bottom, below atBottom, same⟩⟩

/-- A tree can be changed if its atoms can, and then denotes what the new atoms denote. -/
theorem exists_traverse_eq_ok {α : Type u} {β ε G : Type} [One G] [Mul G] [Div G]
    {f : α → Except ε β} {before : α → G} {after : β → G} {e : Expr α}
    (each : ∀ a ∈ e.atoms, ∃ b, f a = .ok b ∧ after b = before a) :
    ∃ changed, e.traverse f = .ok changed ∧ changed.value after = e.value before := by
  induction e using induct with
  | noUnit => exact ⟨noUnit, rfl, rfl⟩
  | atom a =>
    obtain ⟨b, found, same⟩ := each a (by simp [atoms])
    exact ⟨atom b, by rw [traverse, found]; rfl, same⟩
  | mul terms ih =>
    -- Term by term, from left to right.
    have changedTerms : ∃ changed, traverseTerms f terms = .ok changed ∧
        valueOfTerms after changed = valueOfTerms before terms := by
      induction terms with
      | nil => exact ⟨[], rfl, rfl⟩
      | cons term terms later =>
        obtain ⟨first, atFirst, sameFirst⟩ := ih term (by simp) fun a member =>
          each a (List.mem_append_left _ member)
        obtain ⟨others, atOthers, sameOthers⟩ := later
          (fun other present => ih other (by simp [present]))
          (fun a member => each a (List.mem_append_right _ member))
        refine ⟨first :: others, ?_, ?_⟩
        · rw [traverseTerms, atFirst, bind_ok, atOthers]
          rfl
        · rw [valueOfTerms, valueOfTerms, sameFirst, sameOthers]
    obtain ⟨changed, done, same⟩ := changedTerms
    exact ⟨mul changed, by rw [traverse, done]; rfl, same⟩
  | frac num den above below =>
    obtain ⟨top, atTop, sameTop⟩ := above fun a member => each a (List.mem_append_left _ member)
    obtain ⟨bottom, atBottom, sameBottom⟩ := below fun a member =>
      each a (List.mem_append_right _ member)
    refine ⟨frac top bottom, ?_, ?_⟩
    · rw [traverse, atTop, bind_ok, atBottom]
      rfl
    · rw [value, value, sameTop, sameBottom]

/-! ### Trees that cannot be changed -/

section Reports

variable {α : Type u} {β γ δ ε : Type} {f : α → Except ε β}

/-- The steps at all of the atoms succeed, or the outcome is the error of one of them. -/
def Reports (f : α → Except ε β) (atoms : List α) : Except ε γ → Prop
  | .ok _ => ∀ a ∈ atoms, ∃ b, f a = .ok b
  | .error error => ∃ a ∈ atoms, f a = .error error

theorem Reports.bind {first rest : List α} {x : Except ε γ} {g : γ → Except ε δ}
    (before : Reports f first x) (after : ∀ c, Reports f rest (g c)) :
    Reports f (first ++ rest) (x >>= g) := by
  cases x with
  | error error =>
    obtain ⟨a, member, failed⟩ := before
    exact ⟨a, List.mem_append_left rest member, failed⟩
  | ok c =>
    have goesOn := after c
    rw [bind_ok]
    cases outcome : g c with
    | error error =>
      rw [outcome] at goesOn
      obtain ⟨a, member, failed⟩ := goesOn
      exact ⟨a, List.mem_append_right first member, failed⟩
    | ok d =>
      rw [outcome] at goesOn
      exact fun a member => (List.mem_append.mp member).elim (before a) (goesOn a)

theorem reports_pure (c : γ) : Reports f [] (pure c) := fun _ member => nomatch member

theorem Reports.map {atoms : List α} {x : Except ε γ} (reports : Reports f atoms x) (g : γ → δ) :
    Reports f atoms (x >>= fun c => pure (g c)) := by
  have mapped := reports.bind fun c => reports_pure (g c)
  rwa [List.append_nil] at mapped

theorem reports_step (a : α) : Reports f [a] (f a) := by
  cases outcome : f a with
  | error error => exact ⟨a, List.mem_singleton_self a, outcome⟩
  | ok b => exact List.forall_mem_singleton.mpr ⟨b, outcome⟩

theorem reports_traverse (e : Expr α) : Reports f e.atoms (e.traverse f) := by
  induction e using induct with
  | noUnit => exact reports_pure noUnit
  | atom a => exact (reports_step a).map atom
  | mul terms ih =>
    have inTerms : Reports f (atomsOfTerms terms) (traverseTerms f terms) := by
      induction terms with
      | nil => exact reports_pure []
      | cons term terms later =>
        have rest := later fun other present => ih other (by simp [present])
        exact (ih term (by simp)).bind fun first => rest.map (first :: ·)
    exact inTerms.map mul
  | frac num den above below => exact above.bind fun top => below.map (frac top)

end Reports

end Expr

end Metrology
