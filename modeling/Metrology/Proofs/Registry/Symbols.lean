import Metrology.Proofs.Parse.Symbols
import Metrology.Proofs.Registry.ReadingBack
import Metrology.Proofs.Registry.Resolving

/-!
# Symbols in texts and in registries

A text is read before its symbols are looked up. What the reader has dropped is not looked up any
more: a text is accepted if all symbols are declared that its tree still mentions, and a symbol that
cancels in a power is not among them (`unknown_symbols_are_reported`).

A declaration takes any string for a symbol, while a text can name a unit only by a row of symbol
characters. A unit with another symbol cannot be named in any text, and its symbol is malformed or
read as an expression of other units (`declared_symbols_are_written`).
-/
namespace Metrology.Registry

open Composite

variable {r : Registry} {symbol : String} {id : UnitId} {u : Unit}

/-! ### Unknown symbols -/

/-- Reading a text fails just if its tree mentions an unknown symbol, and reports one. The tree
mentions the symbols of the text, less those that cancel in powers. So every unknown symbol is
noticed if none of them cancels in a power. -/
theorem unknown_symbols_are_reported (reachable : r.Reachable) {text : String} {e : Expr String}
    (read : Parse.unit text = .ok e) :
    (∀ a ∈ e.atoms, a ∈ Parse.symbolsIn text.toList) ∧
      (∀ a ∈ Parse.symbolsIn text.toList, a ∈ e.atoms ∨
        Parse.CancelsInPower a .unit (trimBlanks text.toList)) ∧
      ((∃ u, r.parseUnit text = .ok u) ↔ ∀ a ∈ e.atoms, r.Declares a) ∧
      (∀ error, r.parseUnit text = .error error →
        ∃ a ∈ Parse.symbolsIn text.toList, error = .unknownUnit a ∧ ¬ r.Declares a) ∧
      ((∀ a ∈ Parse.symbolsIn text.toList, ¬ r.Declares a →
          ¬ Parse.CancelsInPower a .unit (trimBlanks text.toList)) →
        ((∃ u, r.parseUnit text = .ok u) ↔
          ∀ a ∈ Parse.symbolsIn text.toList, r.Declares a)) := by
  have wf := reachable.wellFormed
  have mentioned : ∀ a ∈ e.atoms, a ∈ Parse.symbolsIn text.toList := fun a member =>
    Parse.mem_symbolsIn_of_unit read member
  have kept := fun a => Parse.mem_atoms_of_unit (a := a) read
  have accepted : (∃ u, r.parseUnit text = .ok u) ↔ ∀ a ∈ e.atoms, r.Declares a := by
    rw [parseUnit_eq_resolve read, exists_resolve_eq_ok_iff wf]
  refine ⟨mentioned, kept, accepted, ?reported, ?noticed⟩
  case reported =>
    intro error failed
    rw [parseUnit_eq_resolve read] at failed
    obtain ⟨a, member, same, unknown⟩ := exists_of_resolve_eq_error wf failed
    exact ⟨a, mentioned a member, same, unknown⟩
  case noticed =>
    intro survive
    rw [accepted]
    constructor
    · intro declared a occurs
      by_contra unknown
      -- An unknown symbol of the text would be mentioned, and so be declared.
      rcases kept a occurs with member | cancels
      · exact unknown (declared a member)
      · exact survive a occurs unknown cancels
    · exact fun declared a member => declared a (mentioned a member)

/-- Unknown symbols in quotients are reported even where they cancel. -/
theorem unknown_quotient_is_reported :
    metric.Reachable ∧ Parse.symbolsIn "(m/x)·(x/kg)".toList = ["m", "x", "x", "kg"] ∧
      ∃ a ∈ ["m", "x", "x", "kg"], metric.parseUnit "(m/x)·(x/kg)" = .error (.unknownUnit a) := by
  have reachable : metric.Reachable := .declared (.declared (.empty 0) _) _
  have read : Parse.unit "(m/x)·(x/kg)" = .ok
      (.mul [.frac (.atom "m") (.atom "x"), .frac (.atom "x") (.atom "kg")]) := by decide +kernel
  have symbols : Parse.symbolsIn "(m/x)·(x/kg)".toList = ["m", "x", "x", "kg"] := by decide +kernel
  obtain ⟨-, -, -, reported, noticed⟩ := unknown_symbols_are_reported reachable read
  have survive : ∀ a, ¬ Parse.CancelsInPower a .unit (trimBlanks "(m/x)·(x/kg)".toList) :=
    fun a cancels => absurd cancels.any_beginsPower (by decide +kernel)
  have refused := mt (noticed fun a _ _ => survive a).mp fun declared =>
    absurd (declared "x" (by rw [symbols]; simp)) (by decide +kernel)
  refine ⟨reachable, symbols, ?_⟩
  cases outcome : metric.parseUnit "(m/x)·(x/kg)" with
  | ok u => exact absurd ⟨u, outcome⟩ refused
  | error error =>
    obtain ⟨a, occurs, rfl, -⟩ := reported error outcome
    exact ⟨a, symbols ▸ occurs, rfl⟩

/-- The power zero hides an unknown symbol, and so does any power of a quotient in which it cancels;
the quotient itself is refused. -/
theorem power_hides_unknown_symbol :
    metric.Reachable ∧ ¬ metric.Declares "x" ∧
      (Parse.symbolsIn "x^0".toList = ["x"] ∧ Parse.unit "x^0" = .ok .noUnit ∧
        metric.parseUnit "x^0" = .ok .none) ∧
      (Parse.symbolsIn "m·(x/x)^1".toList = ["m", "x", "x"] ∧
        metric.parseUnit "m·(x/x)^1" = metric.parseUnit "m") ∧
      metric.parseUnit "m·(x/x)" = .error (.unknownUnit "x") := by
  refine ⟨.declared (.declared (.empty 0) _) _, ?_⟩
  decide +kernel

/-! ### Declared symbols -/

theorem parseUnit_of_isSymbol (r : Registry) (symbolic : Parse.IsSymbol symbol.toList) :
    r.parseUnit symbol = r.atom symbol := by
  rw [parseUnit_eq_resolve (Parse.unit_atom symbolic), resolve_atom]

/-- A symbol is read as its own unit just if it is one in texts too, or an expression of other symbols
that happens to mean the same. -/
theorem parseUnit_eq_atom_iff (wf : r.WellFormed) (declared : r.Declares symbol) :
    r.parseUnit symbol = r.atom symbol ↔ Parse.IsSymbol symbol.toList ∨
      ∃ e, Parse.unit symbol = .ok e ∧ symbol ∉ e.atoms ∧ (∀ a ∈ e.atoms, r.Declares a) ∧
        e.value r.symbolMeaning = r.symbolMeaning symbol := by
  have known := atom_eq_ok wf declared
  constructor
  · intro same
    refine or_iff_not_imp_left.mpr fun other => ?_
    obtain ⟨e, read, resolved⟩ := bind_eq_ok.mp (same.trans known)
    obtain ⟨each, meaning⟩ := (resolve_eq_ok_iff wf).mp resolved
    have absent : symbol ∉ e.atoms := fun member => other (Parse.isSymbol_of_mem_atoms read member)
    exact ⟨e, read, absent, each, (congrArg Unit.composite meaning).symm⟩
  · rintro (symbolic | ⟨e, read, -, each, meaning⟩)
    · exact parseUnit_of_isSymbol r symbolic
    · rw [parseUnit_eq_resolve read, known, resolve_eq_ok_iff wf]
      exact ⟨each, congrArg Unit.mk meaning.symm⟩

/-- Where no alternative name stands for a unit, no other symbol means anything with it. -/
theorem allAtoms_symbolMeaning (wf : r.WellFormed)
    (unnamed : ∀ other expansion, r.expansion? other = some expansion → expansion.count id = 0)
    (declared : r.Declares symbol) (other : r.findUnit symbol ≠ .ok id) :
    (r.symbolMeaning symbol).AllAtoms (· ≠ id) := by
  obtain ⟨named, found⟩ := (exists_findUnit_eq_ok_iff wf).mpr declared
  rw [symbolMeaning_of_findUnit found, meaning]
  cases alternative : r.expansion? named with
  | none =>
    refine allAtoms_single.mpr ?_
    rintro rfl
    exact other found
  | some expansion =>
    rintro part occurs rfl
    exact occurs (unnamed named expansion alternative)

/-- Other symbols do not happen to mean a unit that no alternative name stands for. -/
theorem isSymbol_of_parseUnit_eq_atom (wf : r.WellFormed) (found : r.findUnit symbol = .ok id)
    (scaled : r.IsScaledUnit id)
    (unnamed : ∀ other expansion, r.expansion? other = some expansion → expansion.count id = 0)
    (same : r.parseUnit symbol = r.atom symbol) : Parse.IsSymbol symbol.toList := by
  have declared := (exists_findUnit_eq_ok_iff wf).mp ⟨id, found⟩
  rcases (parseUnit_eq_atom_iff wf declared).mp same with symbolic | ⟨e, read, absent, each, meaning⟩
  · exact symbolic
  · have avoids : (e.value r.symbolMeaning).AllAtoms (· ≠ id) := by
      refine Expr.allAtoms_value fun a member => allAtoms_symbolMeaning wf unnamed (each a member) ?_
      intro alike
      exact absent (findUnit_injective wf found alike ▸ member)
    -- The expression means the unit, which is an atom of itself.
    rw [meaning, symbolMeaning_of_findUnit found, scaled.meaning_eq, allAtoms_single] at avoids
    exact absurd rfl avoids

theorem parseUnit_cases (r : Registry) (text : String) :
    (∃ reason, r.parseUnit text = .error (.malformed reason)) ∨
      ∃ e, Parse.unit text = .ok e ∧ r.parseUnit text = r.resolve e := by
  cases outcome : Parse.unit text with
  | ok e => exact .inr ⟨e, rfl, parseUnit_eq_resolve outcome⟩
  | error error =>
    obtain ⟨reason, rfl⟩ := Parse.exists_reason_of_unit outcome
    exact .inl ⟨reason, by rw [parseUnit, outcome]; rfl⟩

/-- A declared symbol that is made of symbol characters is read as its own unit. No text names a unit
with another symbol: such a symbol is malformed or an expression of other symbols, and is read as the
right unit only if that expression happens to mean the same, as it never does for a unit that no
alternative name stands for. -/
theorem declared_symbols_are_written (reachable : r.Reachable) (declared : r.Declares symbol) :
    (∃ u, r.atom symbol = .ok u) ∧
      (Parse.IsSymbol symbol.toList → r.parseUnit symbol = r.atom symbol) ∧
      (¬ Parse.IsSymbol symbol.toList →
        (∀ text e, Parse.unit text = .ok e → symbol ∉ e.atoms) ∧
        ((∃ reason, r.parseUnit symbol = .error (.malformed reason)) ∨
          ∃ e, Parse.unit symbol = .ok e ∧ r.parseUnit symbol = r.resolve e)) ∧
      (r.parseUnit symbol = r.atom symbol ↔ Parse.IsSymbol symbol.toList ∨
        ∃ e, Parse.unit symbol = .ok e ∧ symbol ∉ e.atoms ∧ (∀ a ∈ e.atoms, r.Declares a) ∧
          e.value r.symbolMeaning = r.symbolMeaning symbol) ∧
      (∀ id, r.findUnit symbol = .ok id → r.IsScaledUnit id →
        (∀ other expansion, r.expansion? other = some expansion → expansion.count id = 0) →
        (r.parseUnit symbol = r.atom symbol ↔ Parse.IsSymbol symbol.toList)) := by
  have wf := reachable.wellFormed
  refine ⟨⟨_, atom_eq_ok wf declared⟩, parseUnit_of_isSymbol r, fun other => ⟨?unnameable, ?misread⟩,
    parseUnit_eq_atom_iff wf declared, fun id found scaled unnamed => ?scaled⟩
  case unnameable => exact fun text e read member => other (Parse.isSymbol_of_mem_atoms read member)
  case misread => exact parseUnit_cases r symbol
  case scaled =>
    exact ⟨isSymbol_of_parseUnit_eq_atom wf found scaled unnamed, parseUnit_of_isSymbol r⟩

/-- Lengths with symbols that are no symbols in texts. -/
def awkward : Registry :=
  ((metric.declared (.unit "1" ⟨0, 0⟩ 2 1)).declared (.unit "m²" ⟨0, 0⟩ 3 1)).declared
    (.unit "H2" ⟨0, 0⟩ 5 1)

theorem reachable_awkward : awkward.Reachable :=
  .declared (.declared (.declared (.declared (.declared (.empty 0) _) _) _) _) _

/-- The metre is written as it is declared; the unit with a number for its symbol is not. -/
theorem metre_is_written :
    awkward.parseUnit "m" = awkward.atom "m" ∧ awkward.parseUnit "1" ≠ awkward.atom "1" := by
  have metre : awkward.Declares "m" := by decide +kernel
  have one : awkward.Declares "1" := by decide +kernel
  obtain ⟨-, written, -⟩ := declared_symbols_are_written reachable_awkward metre
  obtain ⟨-, -, -, -, scaled⟩ := declared_symbols_are_written reachable_awkward one
  have unnamed : ∀ other expansion, awkward.expansion? other = some expansion →
      expansion.count ⟨0, 1⟩ = 0 := by
    -- There are no alternative names at all.
    have meanings : awkward.units.map (·.meaning) =
        [.scaled ⟨0, 0⟩ 1, .scaled ⟨0, 0⟩ 2, .scaled ⟨0, 0⟩ 3, .scaled ⟨0, 0⟩ 5] := by decide +kernel
    intro other expansion alternative
    obtain ⟨symbol, known⟩ := expansion?_eq_some_iff.mp alternative
    have member := List.mem_map_of_mem (f := (·.meaning))
      (List.mem_of_getElem? (unit?_eq_some_iff.mp known).2)
    simp [meanings] at member
  have found : awkward.findUnit "1" = .ok ⟨0, 1⟩ := by decide +kernel
  have isScaled : awkward.IsScaledUnit ⟨0, 1⟩ := ⟨"1", ⟨0, 0⟩, 2, by decide +kernel⟩
  refine ⟨written (by decide), fun same => ?_⟩
  have symbolic := (scaled ⟨0, 1⟩ found isScaled unnamed).mp same
  exact absurd symbolic (by decide)

/-- Symbols that registries take and texts do not: a number is read as no unit, a symbol that ends in
a raised digit as a power of another unit, and one with a decimal digit is malformed. -/
theorem declared_symbols_are_misread :
    awkward.Reachable ∧ (∀ symbol ∈ ["1", "m²", "H2"], awkward.Declares symbol) ∧
      (awkward.parseUnit "1" = .ok .none ∧ awkward.atom "1" = .ok ⟨.single ⟨0, 1⟩⟩) ∧
      (awkward.parseUnit "m²" = .ok ⟨(Composite.single ⟨0, 0⟩).zpow 2⟩ ∧
        awkward.atom "m²" = .ok ⟨.single ⟨0, 2⟩⟩) ∧
      (awkward.parseUnit "H2" = .error (.malformed "Leftover input: 2") ∧
        awkward.atom "H2" = .ok ⟨.single ⟨0, 3⟩⟩) :=
  ⟨reachable_awkward, by decide +kernel⟩

end Metrology.Registry
