import Metrology.Proofs.Registry.Measuring
import Metrology.Proofs.Registry.ReadingBack
import Metrology.Registry.Arithmetic

/-!
# Units among several registries

A registry reduces any tree, with identifiers of other registries in it or not, and replaces the
alternative names that it knows itself. A unit that mentions one registry only may therefore have
been made by another one, which has left alternative names of the first in it
(`foreign_reduce_hides_alternative`). The registry accepts such a unit as its own and then does not
know what to make of it.

This is the only way to come by such a unit. As long as the alternative names of a registry are
given to no other one, all units that mention only this registry are made of its scaled units, by
whatever registries they have been made.
-/
namespace Metrology

open Composite Registry

/-! ### Several registries -/

/-- The registries of a program at one time, by their tags; one that has not been created yet is
empty. -/
structure Registries where
  of : Nat → Registry
  tag_of : ∀ tag, (of tag).tag = tag
  reachable_of : ∀ tag, (of tag).Reachable

theorem Registry.tag_declared (r : Registry) (d : Declaration) : (r.declared d).tag = r.tag :=
  (grows_declared r d).tag

namespace Registries

def initial : Registries where
  of := empty
  tag_of _ := rfl
  reachable_of := .empty

/-- A declaration in one of the registries. -/
def declared (all : Registries) (tag : Nat) (d : Declaration) : Registries where
  of other := if other = tag then (all.of other).declared d else all.of other
  tag_of other := by
    split
    · rw [tag_declared, all.tag_of]
    · exact all.tag_of other
  reachable_of other := by
    split
    · exact (all.reachable_of other).declared d
    · exact all.reachable_of other

/-- A tree has no alternative names of one registry in it if it is reduced by another one. -/
def OwnNames (tag : Nat) (all : Registries) (reducing : Nat) (e : Expr UnitId) : Prop :=
  ∀ id ∈ e.atoms, id.registry = tag → reducing = tag ∨ (all.of tag).expansion? id = none

end Registries

/-- A unit made by some registries from identifiers that any of them have given out, at some time
of their history. Registries are only asked to reduce the trees that are permitted. -/
inductive Made (permits : Registries → Nat → Expr UnitId → Prop) : Registries → Unit → Prop
  | reduced {all : Registries} {tag : Nat} {e : Expr UnitId}
      (issued : ∀ id ∈ e.atoms, (all.of id.registry).HasUnit id) (permitted : permits all tag e) :
      Made permits all ((all.of tag).reduce e)
  | parsed {all : Registries} {tag : Nat} {text : String} {u : Unit}
      (read : (all.of tag).parseUnit text = .ok u) : Made permits all u
  | named {all : Registries} {tag : Nat} {symbol : String} {u : Unit}
      (found : (all.of tag).atom symbol = .ok u) : Made permits all u
  | coherent {all : Registries} {tag : Nat} {d : Dimension} {u : Unit}
      (found : (all.of tag).baseUnit d = .ok u) : Made permits all u
  | product {all : Registries} {u w : Unit} (left : Made permits all u)
      (right : Made permits all w) : Made permits all (u * w)
  | quotient {all : Registries} {u w : Unit} (left : Made permits all u)
      (right : Made permits all w) : Made permits all (u / w)
  | power {all : Registries} {u w : Unit} (base : Made permits all u) {n : Int}
      (raised : u.powi n = .ok w) : Made permits all w
  | later {all : Registries} {u : Unit} (before : Made permits all u) (tag : Nat)
      (d : Declaration) : Made permits (all.declared tag d) u

variable {permits : Registries → Nat → Expr UnitId → Prop} {all : Registries} {tag : Nat}
  {u w : Unit}

/-! ### What is made of scaled units -/

/-- All atoms of a unit that are of one registry are scaled units there. -/
def ElementaryAt (tag : Nat) (all : Registries) (u : Unit) : Prop :=
  u.composite.AllAtoms fun id => id.registry = tag → (all.of tag).IsScaledUnit id

theorem Registry.Elementary.elementaryAt {other : Nat} (elementary : (all.of other).Elementary u) :
    ElementaryAt tag all u := by
  refine elementary.mono fun id scaled here => ?_
  obtain ⟨symbol, scale, factor, found⟩ := scaled
  have same : other = tag := by rw [← here, (unit?_eq_some_iff.mp found).1, all.tag_of]
  exact same ▸ ⟨symbol, scale, factor, found⟩

theorem elementaryAt_reduce {reducing : Nat} {e : Expr UnitId}
    (issued : ∀ id ∈ e.atoms, (all.of id.registry).HasUnit id)
    (permitted : Registries.OwnNames tag all reducing e) :
    ElementaryAt tag all ((all.of reducing).reduce e) := by
  refine Expr.allAtoms_compositeWith ?_ ?_
  · -- What the reducing registry leaves is no alternative name of the other one.
    intro id member unexpanded here
    obtain ⟨unit, found⟩ := issued id member
    rw [here] at found
    refine isScaledUnit_of_expansion? found ?_
    rcases permitted id member here with rfl | plain
    · exact unexpanded
    · exact plain
  · -- What it puts in place of its own names are its own scaled units.
    intro id _ expansion expanded
    have parts := (all.reachable_of reducing).wellFormed.expansions id expansion expanded
    exact Elementary.elementaryAt (u := ⟨expansion⟩) (parts.mono fun _ part => part.1)

theorem ElementaryAt.declared (elementary : ElementaryAt tag all u) (other : Nat)
    (d : Declaration) : ElementaryAt tag (all.declared other d) u := by
  refine elementary.mono fun id scaled here => ?_
  change (if tag = other then (all.of tag).declared d else all.of tag).IsScaledUnit id
  split
  · exact (grows_declared _ d).isScaledUnit (scaled here)
  · exact scaled here

theorem Made.elementaryAt (made : Made (Registries.OwnNames tag) all u) :
    ElementaryAt tag all u := by
  -- Names are replaced on the way in, by the registry that knows them; no operation on units brings
  -- in new atoms, and scaled units stay what they are.
  induction made with
  | reduced issued permitted => exact elementaryAt_reduce issued permitted
  | @parsed all reducing text u read =>
    exact (Built.parsed (all.reachable_of reducing) read).elementary.elementaryAt
  | @named all reducing symbol u found =>
    exact (Built.named (all.reachable_of reducing) found).elementary.elementaryAt
  | @coherent all reducing d u found =>
    exact (Built.coherent (all.reachable_of reducing) found).elementary.elementaryAt
  | product _ _ left right => exact left.mul right
  | quotient _ _ left right => exact left.div right
  | power _ raised base =>
    rw [eq_zpow_of_powi raised]
    exact base.zpow _
  | later _ other d before => exact before.declared other d

/-! ### Main result -/

theorem Made.elementary (made : Made (Registries.OwnNames tag) all u)
    (own : ∀ id ∈ u.expr.atoms, id.registry = tag) : (all.of tag).Elementary u :=
  fun id occurs => made.elementaryAt id occurs (own id (Expr.mem_atoms_ofComposite.mpr occurs))

namespace Registry

variable {r : Registry}

/-- Trees over units that hide no alternative name are flattened as they are. -/
theorem reduce_mul_expr (left : r.Plain u) (right : r.Plain w) :
    r.reduce (.mul [u.expr, w.expr]) = u * w := by
  have plain : ∀ id ∈ (Expr.mul [u.expr, w.expr]).atoms, r.expansion? id = none := by
    intro id member
    obtain ⟨term, present, inside⟩ := Expr.mem_atoms_mul.mp member
    rcases List.mem_pair.mp present with rfl | rfl
    · exact left.atoms id inside
    · exact right.atoms id inside
  have flat : (Expr.mul [u.expr, w.expr]).composite = u.composite * w.composite := by
    simp [Expr.composite_mul, Unit.expr]
  exact congrArg Unit.mk ((reduce_composite_of_plain plain).trans flat)

theorem reduce_frac_expr (left : r.Plain u) (right : r.Plain w) :
    r.reduce (.frac u.expr w.expr) = u / w := by
  have plain : ∀ id ∈ (Expr.frac u.expr w.expr).atoms, r.expansion? id = none := by
    intro id member
    rcases List.mem_append.mp member with above | below
    · exact left.atoms id above
    · exact right.atoms id below
  have flat : (Expr.frac u.expr w.expr).composite = u.composite / w.composite := by
    simp [Expr.composite_frac, Unit.expr]
  exact congrArg Unit.mk ((reduce_composite_of_plain plain).trans flat)

end Registry

/-- If the alternative names of a registry are given to no other one, a unit that mentions this
registry only is in canonical form there and can be measured, and products and quotients are those
of the trees. -/
theorem made_unit_hides_no_alternative (first : Made (Registries.OwnNames tag) all u)
    (second : Made (Registries.OwnNames tag) all w)
    (firstOwn : ∀ id ∈ u.expr.atoms, id.registry = tag)
    (secondOwn : ∀ id ∈ w.expr.atoms, id.registry = tag) :
    (all.of tag).reduce u.expr = u ∧
      (∃ scales, (all.of tag).scalesOf u = .ok scales) ∧
      (∃ d, (all.of tag).dimension u = .ok d) ∧
      ((∃ factor, (all.of tag).factor u = .ok factor) ∨
        ∃ text, (all.of tag).factor u = .error (.factorOverflow text)) ∧
      ∀ x y, (all.of tag).multiply ⟨x, u⟩ ⟨y, w⟩
          = .ok ⟨x * y, (all.of tag).reduce (.mul [u.expr, w.expr])⟩ ∧
        (all.of tag).divide ⟨x, u⟩ ⟨y, w⟩
          = .ok ⟨x / y, (all.of tag).reduce (.frac u.expr w.expr)⟩ := by
  have left := first.elementary firstOwn
  have right := second.elementary secondOwn
  have measured := left.scalesOf_eq
  refine ⟨reduce_expr left.plain, ⟨_, measured⟩, ⟨_, dimension_eq_ok measured⟩, ?factor, ?pair⟩
  case factor => exact left.factor_cases.imp_right fun tooLarge => ⟨_, tooLarge⟩
  case pair =>
    intro x y
    rw [reduce_mul_expr left.plain right.plain, reduce_frac_expr left.plain right.plain]
    constructor
    · rw [multiply, left.check, right.check]
      rfl
    · rw [divide, left.check, right.check]
      rfl

/-! ### Square metres -/

/-- Lengths in metres, with a name for the square metre, in the first registry. -/
def Registries.squares : Registries :=
  ((initial.declared 0 (.scale "distance" "L")).declared 0 (.unit "m" ⟨0, 0⟩ 1 1)).declared 0
    (.alternative "sq" (.mul [.atom ⟨0, 0⟩, .atom ⟨0, 0⟩]))

open Registries (squares)

theorem hasUnit_square : ∀ id ∈ (Expr.atom (⟨0, 1⟩ : UnitId)).atoms,
    (squares.of id.registry).HasUnit id := by
  intro id member
  obtain rfl : id = ⟨0, 1⟩ := by simpa [Expr.atoms] using member
  exact ⟨_, rfl⟩

/-- The first registry replaces the name, and the square metre is in canonical form. -/
theorem square_metre_is_canonical :
    (squares.of 0).reduce (.atom ⟨0, 1⟩) = ⟨.ofList [(⟨0, 0⟩, 2)]⟩ ∧
      Made (Registries.OwnNames 0) squares ⟨.ofList [(⟨0, 0⟩, 2)]⟩ ∧
      (∀ id ∈ (Unit.expr ⟨.ofList [(⟨0, 0⟩, 2)]⟩).atoms, id.registry = 0) ∧
      (squares.of 0).reduce (Unit.expr ⟨.ofList [(⟨0, 0⟩, 2)]⟩) = ⟨.ofList [(⟨0, 0⟩, 2)]⟩ ∧
      (∃ scales, (squares.of 0).scalesOf ⟨.ofList [(⟨0, 0⟩, 2)]⟩ = .ok scales) ∧
      ∃ d, (squares.of 0).dimension ⟨.ofList [(⟨0, 0⟩, 2)]⟩ = .ok d := by
  have reduced : (squares.of 0).reduce (.atom ⟨0, 1⟩) = ⟨.ofList [(⟨0, 0⟩, 2)]⟩ := by
    decide +kernel
  have made : Made (Registries.OwnNames 0) squares ⟨.ofList [(⟨0, 0⟩, 2)]⟩ :=
    reduced ▸ .reduced hasUnit_square fun id member here => .inl rfl
  have own : ∀ id ∈ (Unit.expr ⟨.ofList [(⟨0, 0⟩, 2)]⟩).atoms, id.registry = 0 := by
    decide +kernel
  obtain ⟨canonical, written, measured, -⟩ := made_unit_hides_no_alternative made made own own
  exact ⟨reduced, made, own, canonical, written, measured⟩

/-- The second registry leaves the name as it is. The unit mentions the first registry only, which
neither has it in canonical form nor can measure it. -/
theorem foreign_reduce_hides_alternative :
    ∃ u, Made (fun _ _ _ => True) squares u ∧ (∀ id ∈ u.expr.atoms, id.registry = 0) ∧
      (squares.of 0).reduce u.expr ≠ u ∧
      (squares.of 0).scalesOf u = .error (.unknownUnit "sq") ∧
      (squares.of 0).dimension u = .error (.unknownUnit "sq") ∧
      (squares.of 0).factor u = .error (.unknownUnit "sq") := by
  refine ⟨(squares.of 1).reduce (.atom ⟨0, 1⟩), .reduced hasUnit_square trivial, ?_, ?_, ?_, ?_, ?_⟩
  all_goals decide +kernel

end Metrology
