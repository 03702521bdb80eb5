import Metrology.Registry.History

/-!
# Series of declarations, step by step

A series of declarations carries the registry along and stops at the first error. What a series has
come to is determined by its parts: each lemma here takes a result apart, or puts one together,
along one of the ways in which series are built.
-/
namespace Metrology.Declaring

variable {β γ : Type} {r after : Registry} {error : UnitError}

/-! ### Single steps -/

section Step

variable {declare : Registry → Except UnitError (β × Registry)}

theorem step_eq_ok_iff {result : β} :
    step declare r = (.ok result, after) ↔ declare r = .ok (result, after) := by
  rw [step]
  constructor
  · intro done
    split at done
    next accepted =>
      cases done
      exact accepted
    · cases done
  · intro accepted
    rw [accepted]

/-- A step that fails leaves nothing behind. -/
theorem step_eq_error_iff :
    step declare r = (.error error, after) ↔ declare r = .error error ∧ after = r := by
  rw [step]
  constructor
  · intro failed
    split at failed
    · cases failed
    next refused =>
      cases failed
      exact ⟨refused, rfl⟩
  · rintro ⟨refused, rfl⟩
    rw [refused]

end Step

/-! ### One after the other -/

theorem bind_eq_ok_iff {m : Declaring β} {f : β → Declaring γ} {result : γ} :
    (m >>= f) r = (.ok result, after) ↔
      ∃ first middle, m r = (.ok first, middle) ∧ f first middle = (.ok result, after) := by
  change ExceptT.bindCont f (m r).1 (m r).2 = _ ↔ _
  rcases m r with ⟨fault | first, middle⟩
  · constructor
    · intro done
      cases congrArg Prod.fst done
    · rintro ⟨_, _, ⟨⟩, _⟩
  · constructor
    · exact fun done => ⟨first, middle, rfl, done⟩
    · rintro ⟨_, _, ⟨⟩, done⟩
      exact done

/-- The first part has failed, or it has not and the second one has. -/
theorem bind_eq_error_iff {m : Declaring β} {f : β → Declaring γ} :
    (m >>= f) r = (.error error, after) ↔ m r = (.error error, after) ∨
      ∃ first middle, m r = (.ok first, middle) ∧ f first middle = (.error error, after) := by
  change ExceptT.bindCont f (m r).1 (m r).2 = _ ↔ _
  rcases m r with ⟨fault | first, middle⟩
  · -- The second part is not reached, and the error is passed on as it is.
    constructor
    · intro failed
      cases failed
      exact .inl rfl
    · rintro (⟨⟨⟩⟩ | ⟨_, _, ⟨⟩, _⟩)
      rfl
  · constructor
    · exact fun failed => .inr ⟨first, middle, rfl, failed⟩
    · rintro (⟨⟨⟩⟩ | ⟨_, _, ⟨⟩, failed⟩)
      exact failed

theorem pure_eq_ok_iff {result given : β} :
    (pure given : Declaring β) r = (.ok result, after) ↔ given = result ∧ after = r := by
  constructor
  · intro done
    cases done
    exact ⟨rfl, rfl⟩
  · rintro ⟨rfl, rfl⟩
    rfl

/-! ### Results that are dropped -/

theorem discard_eq_ok_iff {m : Declaring β} {nothing : PUnit} :
    (discard m : Declaring PUnit) r = (.ok nothing, after) ↔ ∃ result, m r = (.ok result, after) := by
  rw [discard_apply]
  constructor
  · intro done
    rcases outcome : m r with ⟨fault | result, later⟩ <;> rw [outcome] at done <;> cases done
    exact ⟨result, rfl⟩
  · rintro ⟨result, done⟩
    rw [done]
    rfl

theorem discard_eq_error_iff {m : Declaring β} :
    (discard m : Declaring PUnit) r = (.error error, after) ↔ m r = (.error error, after) := by
  rw [discard_apply]
  constructor
  · intro failed
    rcases outcome : m r with ⟨fault | result, later⟩ <;> rw [outcome] at failed <;> cases failed
    rfl
  · intro failed
    rw [failed]
    rfl

/-! ### The same for each item -/

section Items

variable {f : β → Declaring γ}

theorem mapM_cons_eq_ok_iff {item : β} {items : List β} {results : List γ} :
    (item :: items).mapM f r = (.ok results, after) ↔
      ∃ first middle others, f item r = (.ok first, middle) ∧
        items.mapM f middle = (.ok others, after) ∧ first :: others = results := by
  rw [List.mapM_cons, bind_eq_ok_iff]
  constructor
  · rintro ⟨first, middle, accepted, done⟩
    obtain ⟨others, last, rest, same⟩ := bind_eq_ok_iff.mp done
    obtain ⟨together, rfl⟩ := pure_eq_ok_iff.mp same
    exact ⟨first, middle, others, accepted, rest, together⟩
  · rintro ⟨first, middle, others, accepted, rest, together⟩
    exact ⟨first, middle, accepted,
      bind_eq_ok_iff.mpr ⟨others, after, rest, pure_eq_ok_iff.mpr ⟨together, rfl⟩⟩⟩

theorem mapM_cons_eq_error_iff {item : β} {items : List β} :
    (item :: items).mapM f r = (.error error, after) ↔ f item r = (.error error, after) ∨
      ∃ first middle, f item r = (.ok first, middle) ∧
        items.mapM f middle = (.error error, after) := by
  rw [List.mapM_cons, bind_eq_error_iff]
  refine or_congr_right (exists_congr fun first => exists_congr fun middle => and_congr_right fun _ => ?_)
  rw [bind_eq_error_iff]
  -- Putting the results together does not fail.
  refine or_iff_left ?_
  rintro ⟨others, last, -, impossible⟩
  cases congrArg Prod.fst impossible

/-- A series that fails has come to an item that fails, after items that have all succeeded. -/
theorem mapM_eq_error_iff {items : List β} :
    items.mapM f r = (.error error, after) ↔
      ∃ done item rest results middle, items = done ++ item :: rest ∧
        done.mapM f r = (.ok results, middle) ∧ f item middle = (.error error, after) := by
  induction items generalizing r with
  | nil =>
    constructor
    · intro failed
      cases congrArg Prod.fst failed
    · rintro ⟨done, item, rest, -, -, parts, -⟩
      simp at parts
  | cons first items ih =>
    rw [mapM_cons_eq_error_iff]
    constructor
    · rintro (here | ⟨result, next, accepted, failed⟩)
      · exact ⟨[], first, items, [], r, rfl, rfl, here⟩
      · obtain ⟨done, item, rest, results, middle, rfl, before, refused⟩ := ih.mp failed
        exact ⟨first :: done, item, rest, result :: results, middle, rfl,
          mapM_cons_eq_ok_iff.mpr ⟨result, next, results, accepted, before, rfl⟩, refused⟩
    · rintro ⟨done, item, rest, results, middle, parts, before, refused⟩
      -- The item that fails is the first one, or one of those after the first one.
      cases done with
      | nil =>
        cases before
        obtain ⟨rfl, rfl⟩ := List.cons.inj parts
        exact .inl refused
      | cons _ done =>
        obtain ⟨rfl, rfl⟩ := List.cons.inj parts
        obtain ⟨result, next, others, accepted, before, -⟩ := mapM_cons_eq_ok_iff.mp before
        exact .inr ⟨result, next, accepted,
          ih.mpr ⟨done, item, rest, others, middle, rfl, before, refused⟩⟩

theorem mapM_singleton_eq_error_iff {item : β} :
    [item].mapM f r = (.error error, after) ↔ f item r = (.error error, after) := by
  rw [mapM_cons_eq_error_iff]
  refine or_iff_left ?_
  rintro ⟨first, middle, -, impossible⟩
  cases congrArg Prod.fst impossible

end Items

end Metrology.Declaring
