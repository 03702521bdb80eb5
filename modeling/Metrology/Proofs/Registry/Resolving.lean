import Metrology.Proofs.Registry.OwnUnits
import Metrology.Registry.Text

/-!
# Resolving symbols

Resolving a tree over symbols is reading it with each symbol taken for what its unit stands for
(`resolve_eq_ok_iff`). It succeeds just if all symbols of the tree are declared, and otherwise it
reports one of those that are not (`exists_of_resolve_eq_error`).
-/
namespace Metrology.Registry

variable {r : Registry} {symbol : String} {id : UnitId} {e : Expr String} {u : Unit}
  {error : UnitError}

/-- A unit has been declared with this symbol. -/
def Declares (r : Registry) (symbol : String) : Prop := ∃ unit ∈ r.units, unit.symbol = symbol

instance : Decidable (r.Declares symbol) :=
  inferInstanceAs (Decidable (∃ unit ∈ r.units, unit.symbol = symbol))

/-- What a named unit stands for: its expansion if it is an alternative name, else itself. -/
def meaning (r : Registry) (id : UnitId) : Composite UnitId := (r.expansion? id).getD (.single id)

/-- What a symbol stands for; a symbol without a unit stands for nothing. -/
def symbolMeaning (r : Registry) (symbol : String) : Composite UnitId :=
  ((r.unitSymbols.lookup symbol).map r.meaning).getD 1

/-! ### Symbols and their units -/

theorem exists_findUnit_eq_ok_iff (wf : r.WellFormed) :
    (∃ id, r.findUnit symbol = .ok id) ↔ r.Declares symbol := by
  constructor
  · rintro ⟨id, found⟩
    have named := (wf.unitSymbols symbol id).mp (findUnit_eq_ok_iff.mp found)
    obtain ⟨unit, known, same⟩ := Option.map_eq_some_iff.mp named
    exact ⟨unit, List.mem_of_getElem? (unit?_eq_some_iff.mp known).2, same⟩
  · rintro ⟨unit, member, rfl⟩
    obtain ⟨index, entry⟩ := List.getElem?_of_mem member
    have known : r.unit? ⟨r.tag, index⟩ = some unit := unit?_eq_some_iff.mpr ⟨rfl, entry⟩
    refine ⟨⟨r.tag, index⟩, findUnit_eq_ok_iff.mpr ((wf.unitSymbols _ _).mpr ?_)⟩
    simp [known]

theorem findUnit_eq_error (failed : r.findUnit symbol = .error error) :
    error = .unknownUnit symbol := by
  unfold findUnit at failed
  split at failed
  · cases failed
  · exact (Except.error.inj failed).symm

theorem findUnit_injective (wf : r.WellFormed) {other : String} (first : r.findUnit symbol = .ok id)
    (second : r.findUnit other = .ok id) : symbol = other := by
  have named := (wf.unitSymbols symbol id).mp (findUnit_eq_ok_iff.mp first)
  have alike := (wf.unitSymbols other id).mp (findUnit_eq_ok_iff.mp second)
  exact Option.some.inj (named.symm.trans alike)

theorem IsScaledUnit.meaning_eq (scaled : r.IsScaledUnit id) : r.meaning id = .single id := by
  obtain ⟨symbol, scale, factor, known⟩ := scaled
  simp [meaning, expansion?, known]

theorem symbolMeaning_of_findUnit (found : r.findUnit symbol = .ok id) :
    r.symbolMeaning symbol = r.meaning id := by
  simp [symbolMeaning, findUnit_eq_ok_iff.mp found]

/-! ### Trees over symbols -/

theorem resolve_eq_ok_iff (wf : r.WellFormed) :
    r.resolve e = .ok u ↔ (∀ a ∈ e.atoms, r.Declares a) ∧ u = ⟨e.value r.symbolMeaning⟩ := by
  -- Where each symbol is declared, resolving keeps the reading of the tree.
  have whole (declared : ∀ a ∈ e.atoms, r.Declares a) :
      r.resolve e = .ok ⟨e.value r.symbolMeaning⟩ := by
    have each : ∀ a ∈ e.atoms, ∃ id, r.findUnit a = .ok id ∧ r.meaning id = r.symbolMeaning a := by
      intro a member
      obtain ⟨id, found⟩ := (exists_findUnit_eq_ok_iff wf).mpr (declared a member)
      exact ⟨id, found, (symbolMeaning_of_findUnit found).symm⟩
    obtain ⟨resolved, done, same⟩ := Expr.exists_traverse_eq_ok each
    exact bind_eq_ok.mpr ⟨resolved, done, congrArg (fun c => Except.ok (Unit.mk c)) same⟩
  constructor
  · intro done
    have declared : ∀ a ∈ e.atoms, r.Declares a := by
      intro a member
      obtain ⟨resolved, traversed, -⟩ := bind_eq_ok.mp done
      have reports := Expr.reports_traverse (f := r.findUnit) e
      rw [traversed] at reports
      exact (exists_findUnit_eq_ok_iff wf).mp (reports a member)
    rw [whole declared] at done
    exact ⟨declared, (Except.ok.inj done).symm⟩
  · rintro ⟨declared, rfl⟩
    exact whole declared

theorem exists_resolve_eq_ok_iff (wf : r.WellFormed) :
    (∃ u, r.resolve e = .ok u) ↔ ∀ a ∈ e.atoms, r.Declares a := by
  simp [resolve_eq_ok_iff wf]

theorem exists_of_resolve_eq_error (wf : r.WellFormed) (failed : r.resolve e = .error error) :
    ∃ a ∈ e.atoms, error = .unknownUnit a ∧ ¬ r.Declares a := by
  have reports := Expr.reports_traverse (f := r.findUnit) e
  cases outcome : e.traverse r.findUnit with
  | ok resolved =>
    rw [resolve, outcome] at failed
    cases failed
  | error reported =>
    rw [resolve, outcome] at failed
    obtain rfl : reported = error := Except.error.inj failed
    rw [outcome] at reports
    obtain ⟨a, member, unknown⟩ := reports
    refine ⟨a, member, findUnit_eq_error unknown, fun declared => ?_⟩
    obtain ⟨id, found⟩ := (exists_findUnit_eq_ok_iff wf).mpr declared
    rw [found] at unknown
    cases unknown

/-- One symbol is resolved as in the table of symbols. -/
theorem resolve_atom (r : Registry) (symbol : String) : r.resolve (.atom symbol) = r.atom symbol := by
  rw [resolve, atom, Expr.traverse]
  cases r.findUnit symbol <;> rfl

theorem atom_eq_ok (wf : r.WellFormed) (declared : r.Declares symbol) :
    r.atom symbol = .ok ⟨r.symbolMeaning symbol⟩ := by
  rw [← resolve_atom, resolve_eq_ok_iff wf]
  exact ⟨List.forall_mem_singleton.mpr declared, rfl⟩

theorem parseUnit_eq_resolve {text : String} (read : Parse.unit text = .ok e) :
    r.parseUnit text = r.resolve e := by
  rw [parseUnit, read]
  rfl

end Metrology.Registry
