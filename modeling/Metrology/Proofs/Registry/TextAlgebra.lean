import Metrology.Proofs.Parse.Composition
import Metrology.Proofs.Registry.ExactFactors
import Metrology.Proofs.Registry.Resolving

/-!
# Texts mirror the arithmetic of units

The text of a product in parentheses denotes the product of what its parts denote, and likewise for
quotients. Powers are a matter of their own: the reader raises the symbols of a text and checks
their exponents, before it is known what they stand for, while the power of a unit counts named
units. If no symbol is an alternative name, different symbols stand for different named units
(`count_value`), so that both come to the same exponents and stop at the same limit.
-/
namespace Metrology.Registry

open Composite

variable {r : Registry} {u w : Unit} {e left right : Expr String}

/-! ### Products and quotients -/

theorem resolve_times (wf : r.WellFormed) (first : r.resolve left = .ok u)
    (second : r.resolve right = .ok w) :
    r.resolve (Parse.Separator.times.join left right) = .ok (u * w) := by
  obtain ⟨declaredLeft, rfl⟩ := (resolve_eq_ok_iff wf).mp first
  obtain ⟨declaredRight, rfl⟩ := (resolve_eq_ok_iff wf).mp second
  refine (resolve_eq_ok_iff wf).mpr ⟨fun a member => ?_, ?_⟩
  · obtain ⟨term, present, inside⟩ := Expr.mem_atoms_mul.mp member
    simp only [List.mem_cons, List.not_mem_nil, or_false] at present
    rcases present with rfl | rfl
    · exact declaredLeft a inside
    · exact declaredRight a inside
  · exact congrArg Unit.mk (Parse.value_join_times r.symbolMeaning left right).symm

theorem resolve_per (wf : r.WellFormed) (first : r.resolve left = .ok u)
    (second : r.resolve right = .ok w) :
    r.resolve (Parse.Separator.per.join left right) = .ok (u / w) := by
  obtain ⟨declaredLeft, rfl⟩ := (resolve_eq_ok_iff wf).mp first
  obtain ⟨declaredRight, rfl⟩ := (resolve_eq_ok_iff wf).mp second
  refine (resolve_eq_ok_iff wf).mpr ⟨fun a member => ?_, ?_⟩
  · rcases List.mem_append.mp member with above | below
    · exact declaredLeft a above
    · exact declaredRight a below
  · exact congrArg Unit.mk (Parse.value_join_per r.symbolMeaning left right).symm

/-! ### Powers without alternative names -/

/-- No unit of the registry is short for others. -/
def Unaliased (r : Registry) : Prop :=
  ∀ unit ∈ r.units, ∀ expansion, unit.meaning ≠ .alternative expansion

theorem Unaliased.meaning_eq (unaliased : r.Unaliased) (id : UnitId) :
    r.meaning id = .single id := by
  have literal : r.expansion? id = none := by
    refine Option.eq_none_iff_forall_ne_some.mpr fun expansion alternative => ?_
    obtain ⟨symbol, found⟩ := expansion?_eq_some_iff.mp alternative
    exact unaliased _ (List.mem_of_getElem? (unit?_eq_some_iff.mp found).2) expansion rfl
  rw [meaning, literal, Option.getD_none]

theorem Unaliased.symbolMeaning_eq (unaliased : r.Unaliased) {symbol : String} {id : UnitId}
    (found : r.findUnit symbol = .ok id) : r.symbolMeaning symbol = .single id := by
  rw [symbolMeaning_of_findUnit found, unaliased.meaning_eq]

/-- Only symbols of the tree are counted. -/
theorem allAtoms_composite (e : Expr String) : e.composite.AllAtoms (· ∈ e.atoms) :=
  Expr.allAtoms_value fun _ member => allAtoms_single.mpr member

/-- A named unit is counted as often as its symbol. -/
theorem count_value (wf : r.WellFormed) (unaliased : r.Unaliased)
    (declared : ∀ a ∈ e.atoms, r.Declares a) {symbol : String} {id : UnitId}
    (found : r.findUnit symbol = .ok id) :
    (e.value r.symbolMeaning).count id = e.composite.count symbol := by
  have each : ∀ entry ∈ e.composite.entries,
      (r.symbolMeaning entry.1).count id = (single entry.1).count symbol := by
    intro entry member
    obtain ⟨other, named⟩ := (exists_findUnit_eq_ok_iff wf).mpr
      (declared entry.1 ((allAtoms_composite e).of_mem member))
    rw [unaliased.symbolMeaning_eq named, count_single, count_single]
    -- Two symbols are the same just if their units are.
    refine if_congr ?_ rfl rfl
    rw [Std.compare_eq_iff_eq, Std.compare_eq_iff_eq]
    constructor
    · rintro rfl
      exact findUnit_injective wf named found
    · rintro rfl
      exact Except.ok.inj (named.symm.trans found)
  rw [← Expr.eval_composite, count_eval]
  conv_rhs => rw [← Expr.eval_single_self e.composite, count_eval]
  refine congrArg List.sum (List.map_congr_left fun entry member => ?_)
  rw [each entry member]

/-- A power of the unit is within the limit just if the same power of the text is. -/
theorem withinLimit_value_iff (wf : r.WellFormed) (unaliased : r.Unaliased)
    (declared : ∀ a ∈ e.atoms, r.Declares a) {n : Int} :
    ((e.value r.symbolMeaning).zpow n).WithinLimit ↔ (e.composite.zpow n).WithinLimit := by
  constructor
  · intro within a
    rw [count_zpow]
    by_cases absent : e.composite.count a = 0
    · simp [absent]
    · obtain ⟨id, found⟩ :=
        (exists_findUnit_eq_ok_iff wf).mpr (declared a (allAtoms_composite e a absent))
      rw [← count_value wf unaliased declared found, ← count_zpow]
      exact within id
  · intro within id
    rw [count_zpow]
    by_cases absent : (e.value r.symbolMeaning).count id = 0
    · simp [absent]
    · -- A unit that occurs stands behind a symbol of the tree.
      have named : (e.value r.symbolMeaning).AllAtoms fun id => ∃ a, r.findUnit a = .ok id := by
        refine Expr.allAtoms_value fun a member => ?_
        obtain ⟨other, found⟩ := (exists_findUnit_eq_ok_iff wf).mpr (declared a member)
        rw [unaliased.symbolMeaning_eq found]
        exact allAtoms_single.mpr ⟨a, found⟩
      obtain ⟨a, found⟩ := named id absent
      rw [count_value wf unaliased declared found, ← count_zpow]
      exact within a

theorem resolve_powered (wf : r.WellFormed) (resolved : r.resolve e = .ok u) (n : Int) :
    r.resolve (.ofComposite (e.composite.zpow n)) = .ok ⟨u.composite.zpow n⟩ := by
  obtain ⟨declared, rfl⟩ := (resolve_eq_ok_iff wf).mp resolved
  refine (resolve_eq_ok_iff wf).mpr ⟨fun a member => ?_, congrArg Unit.mk ?_⟩
  · exact declared a ((allAtoms_composite e).zpow n a (Expr.mem_atoms_ofComposite.mp member))
  · calc (e.value r.symbolMeaning).zpow n
        = (eval r.symbolMeaning e.composite).zpow n := by rw [Expr.eval_composite]
      _ = eval r.symbolMeaning (e.composite.zpow n) :=
          (map_zpow (eval r.symbolMeaning) e.composite n).symm
      _ = (Expr.ofComposite (e.composite.zpow n)).value r.symbolMeaning := by
          rw [← Expr.eval_composite, Expr.composite_ofComposite]

/-- A power of a text in parentheses is the power of the unit, or neither of them exists. -/
theorem parseUnit_powered (wf : r.WellFormed) (unaliased : r.Unaliased) {s power : List Char} {n : Int}
    {text : String} (derived : Parse.Derives .unit s e) (resolved : r.resolve e = .ok u)
    (exponent : Parse.Power power n) (spelled : text.toList = Parse.grouped s ++ power) :
    (∃ v, r.parseUnit text = .ok v ∧ u.powi n = .ok v) ∨
      (∃ reason, r.parseUnit text = .error (.malformed reason)) ∧
        u.powi n = .error (.powerOverflow n) := by
  obtain ⟨declared, rfl⟩ := (resolve_eq_ok_iff wf).mp resolved
  have split : trimBlanks text.toList = Parse.grouped s ++ power := by
    rw [spelled, Parse.trimBlanks_grouped exponent.dense]
  have limit := withinLimit_value_iff wf unaliased declared (n := n)
  by_cases within : (e.composite.zpow n).WithinLimit
  · left
    have read := Parse.unit_powered split derived.factor_of_unit exponent within
    refine ⟨_, (parseUnit_eq_resolve read).trans (resolve_powered wf resolved n), ?_⟩
    exact powi_eq_ok_iff.mpr ⟨rfl, limit.mpr within⟩
  · right
    obtain ⟨reason, malformed⟩ :=
      Parse.unit_powered_malformed split derived.factor_of_unit exponent within
    refine ⟨⟨reason, ?_⟩, powi_eq_error_iff.mpr ⟨rfl, mt limit.mp within⟩⟩
    rw [parseUnit, malformed]
    rfl

/-! ### Main result -/

/-- A text denotes a power exactly if the power exists, and it is malformed exactly if not. -/
def DenotesPower (r : Registry) (text : String) (u : Unit) (n : Int) : Prop :=
  (∀ v, r.parseUnit text = .ok v ↔ u.powi n = .ok v) ∧
    ((∃ reason, r.parseUnit text = .error (.malformed reason)) ↔
      u.powi n = .error (.powerOverflow n))

theorem denotesPower_of_cases {text : String} {n : Int}
    (cases : (∃ v, r.parseUnit text = .ok v ∧ u.powi n = .ok v) ∨
      (∃ reason, r.parseUnit text = .error (.malformed reason)) ∧
        u.powi n = .error (.powerOverflow n)) : r.DenotesPower text u n := by
  rcases cases with ⟨v, read, raised⟩ | ⟨⟨reason, malformed⟩, overflow⟩
  · simp [DenotesPower, read, raised]
  · simp [DenotesPower, malformed, overflow]

/-- Whatever two texts denote, each of them in parentheses, separated by a sign for multiplication or
by the bar with any spacing, they denote the product or the quotient. Where there are no alternative
names, an exponent behind the parentheses denotes the power, in decimal and in raised digits. -/
theorem texts_mirror_arithmetic (reachable : r.Reachable) {s t : String}
    (trimmed : trimBlanks s.toList = s.toList) (some : s ≠ "") (denotes : r.parseUnit s = .ok u)
    (trimmedOther : trimBlanks t.toList = t.toList) (someOther : t ≠ "")
    (denotesOther : r.parseUnit t = .ok w) :
    (∀ before after : String, Parse.Spacing before.toList → Parse.Spacing after.toList →
      (∀ separator ∈ ["*", "·", "⋅"],
        r.parseUnit ("(" ++ s ++ ")" ++ before ++ separator ++ after ++ "(" ++ t ++ ")")
          = .ok (u * w)) ∧
      r.parseUnit ("(" ++ s ++ ")" ++ before ++ "/" ++ after ++ "(" ++ t ++ ")") = .ok (u / w)) ∧
    (r.Unaliased → ∀ n : Int, n.natAbs < 2 ^ 31 →
      r.DenotesPower ("(" ++ s ++ ")^" ++ toString n) u n ∧
        r.DenotesPower ("(" ++ s ++ ")" ++ String.ofList (Superscript.signedRow n)) u n) := by
  have wf := reachable.wellFormed
  obtain ⟨e, read, resolved⟩ := bind_eq_ok.mp denotes
  obtain ⟨other, readOther, resolvedOther⟩ := bind_eq_ok.mp denotesOther
  have derived := Parse.derives_of_unit trimmed some read
  have derivedOther := Parse.derives_of_unit trimmedOther someOther readOther
  refine ⟨fun before after spacing spacingAfter => ⟨fun separator member => ?times, ?per⟩,
    fun unaliased n small => ?powers⟩
  case times =>
    have joined (c : Char) (separates : Parse.Separates c .times) :
        r.parseUnit ("(" ++ s ++ ")" ++ before ++ String.singleton c ++ after ++ "(" ++ t ++ ")")
          = .ok (u * w) := by
      have spelled : ("(" ++ s ++ ")" ++ before ++ String.singleton c ++ after ++ "(" ++ t
          ++ ")").toList = Parse.grouped s.toList
            ++ (before.toList ++ c :: (after.toList ++ Parse.grouped t.toList)) := by
        simp [Parse.grouped]
      have tree := Parse.unit_joined derived derivedOther spacing separates spacingAfter spelled
      exact (parseUnit_eq_resolve tree).trans (resolve_times wf resolved resolvedOther)
    simp only [List.mem_cons, List.not_mem_nil, or_false] at member
    rcases member with rfl | rfl | rfl
    · exact joined '*' .star
    · exact joined '·' .dot
    · exact joined '⋅' .operator
  case per =>
    have spelled : ("(" ++ s ++ ")" ++ before ++ "/" ++ after ++ "(" ++ t ++ ")").toList
        = Parse.grouped s.toList
          ++ (before.toList ++ '/' :: (after.toList ++ Parse.grouped t.toList)) := by
      simp [Parse.grouped]
    have tree := Parse.unit_joined derived derivedOther spacing .bar spacingAfter spelled
    exact (parseUnit_eq_resolve tree).trans (resolve_per wf resolved resolvedOther)
  case powers =>
    have within : n.natAbs ≤ Parse.maxExponent := Nat.le_of_lt_succ small
    constructor
    · exact denotesPower_of_cases (parseUnit_powered wf unaliased derived resolved
        (Parse.power_hat within) (by simp [Parse.grouped]))
    · exact denotesPower_of_cases (parseUnit_powered wf unaliased derived resolved
        (Parse.power_raised within) (by simp [Parse.grouped]))

/-- With speeds and squares of hours: their product and quotient, the last power of the square in
decimal digits and the one after it in raised digits. -/
theorem speeds_mirror_arithmetic :
    ∃ speed square, travelling.parseUnit "km/h" = .ok speed ∧ travelling.parseUnit "h²" = .ok square ∧
      travelling.parseUnit "(km/h) \t⋅(h²)" = .ok (speed * square) ∧
      travelling.parseUnit "(km/h)/ (h²)" = .ok (speed / square) ∧
      (∃ v, travelling.parseUnit "(h²)^-500" = .ok v ∧ square.powi (-500) = .ok v) ∧
      ∃ reason, travelling.parseUnit "(h²)⁵⁰¹" = .error (.malformed reason) := by
  have reachable : travelling.Reachable :=
    .declared (.declared (.declared (.declared (.empty 0) _) _) _) _
  have readSpeed : travelling.parseUnit "km/h" = .ok ⟨.ofList [(⟨0, 1⟩, 1), (⟨0, 2⟩, -1)]⟩ := by
    decide +kernel
  have readSquare : travelling.parseUnit "h²" = .ok ⟨.ofList [(⟨0, 2⟩, 2)]⟩ := by decide +kernel
  have unaliased : travelling.Unaliased := by
    have meanings : travelling.units.map (·.meaning)
        = [.scaled ⟨0, 0⟩ 1, .scaled ⟨0, 0⟩ 1000, .scaled ⟨0, 1⟩ 3600] := by decide +kernel
    intro unit member expansion alternative
    have listed := List.mem_map_of_mem (f := (·.meaning)) member
    simp [meanings, alternative] at listed
  obtain ⟨-, powers⟩ := texts_mirror_arithmetic reachable (by decide +kernel) (by decide)
    readSquare (by decide +kernel) (by decide) readSquare
  obtain ⟨product, -⟩ := texts_mirror_arithmetic reachable (by decide +kernel) (by decide)
    readSpeed (by decide +kernel) (by decide) readSquare
  have lastPower : (Unit.mk (.ofList [(⟨0, 2⟩, 2)])).powi (-500)
      = .ok ⟨.ofList [(⟨0, 2⟩, -1000)]⟩ := by decide +kernel
  have nextPower : (Unit.mk (.ofList [(⟨0, 2⟩, 2)])).powi 501 = .error (.powerOverflow 501) := by
    decide +kernel
  refine ⟨_, _, readSpeed, readSquare, ?_, ?_, ⟨_, ?_, lastPower⟩, ?_⟩
  · exact (product " \t" "" (List.all_eq_true.mp (by decide)) Parse.spacing_nil).1 "⋅" (by simp)
  · exact (product "" " " Parse.spacing_nil (List.all_eq_true.mp (by decide))).2
  · exact ((powers unaliased (-500) (by decide)).1.1 _).mpr lastPower
  · exact (powers unaliased 501 (by decide)).2.2.mpr nextPower

end Metrology.Registry
