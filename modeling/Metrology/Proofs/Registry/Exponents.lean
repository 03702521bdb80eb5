import Metrology.Proofs.Parse.Exponents
import Metrology.Proofs.Registry.Measuring
import Metrology.Proofs.Registry.Symbols
import Metrology.Registry.Arithmetic

/-!
# How large exponents can be

Powers are checked: those with an exponent beyond the limit are refused, by the operation as in
texts. Products and quotients are defined for any two units and add exponents up without a check.
So the exponent of an atom is bounded by the limit times the number of times that the atom has been
mentioned (`Obtained.boundedBy`), and a unit can be read back from its text just as long as its
exponents are within the limit themselves.
-/
namespace Metrology.Registry

open Composite

variable {r : Registry} {u w : Unit} {mentions others : UnitId → Nat}

/-! ### Units obtained from texts and symbols -/

/-- How often symbols mention a named unit by what they stand for. -/
def mentionsOf (r : Registry) (symbols : List String) (id : UnitId) : Nat :=
  Parse.mentions r.symbolMeaning id symbols

/-- A unit that was obtained from texts and symbols by arithmetic, with the number of times that each
named unit was mentioned on the way. -/
inductive Obtained (r : Registry) : (UnitId → Nat) → Unit → Prop
  | parsed {text : String} {u : Unit} (read : r.parseUnit text = .ok u) :
      Obtained r (r.mentionsOf (Parse.symbolsIn text.toList)) u
  | named {symbol : String} {u : Unit} (found : r.atom symbol = .ok u) :
      Obtained r (r.mentionsOf [symbol]) u
  | product {mentions others : UnitId → Nat} {u w : Unit} (left : Obtained r mentions u)
      (right : Obtained r others w) : Obtained r (fun id => mentions id + others id) (u * w)
  | quotient {mentions others : UnitId → Nat} {u w : Unit} (left : Obtained r mentions u)
      (right : Obtained r others w) : Obtained r (fun id => mentions id + others id) (u / w)
  | power {mentions : UnitId → Nat} {u w : Unit} (base : Obtained r mentions u) {n : Int}
      (raised : u.powi n = .ok w) : Obtained r mentions w
  | multiplied {mentions others : UnitId → Nat} {a b q : Quantity} (left : Obtained r mentions a.unit)
      (right : Obtained r others b.unit) (done : r.multiply a b = .ok q) :
      Obtained r (fun id => mentions id + others id) q.unit
  | divided {mentions others : UnitId → Nat} {a b q : Quantity} (left : Obtained r mentions a.unit)
      (right : Obtained r others b.unit) (done : r.divide a b = .ok q) :
      Obtained r (fun id => mentions id + others id) q.unit

theorem unit_of_multiply {a b q : Quantity} (done : r.multiply a b = .ok q) :
    q.unit = a.unit * b.unit := by
  obtain ⟨-, -, rest⟩ := bind_eq_ok.mp done
  obtain ⟨-, -, same⟩ := bind_eq_ok.mp rest
  exact congrArg Quantity.unit (Except.ok.inj same).symm

theorem unit_of_divide {a b q : Quantity} (done : r.divide a b = .ok q) :
    q.unit = a.unit / b.unit := by
  obtain ⟨-, -, rest⟩ := bind_eq_ok.mp done
  obtain ⟨-, -, same⟩ := bind_eq_ok.mp rest
  exact congrArg Quantity.unit (Except.ok.inj same).symm

theorem Obtained.built (reachable : r.Reachable) (obtained : r.Obtained mentions u) : Built r u := by
  induction obtained with
  | parsed read => exact .parsed reachable read
  | named found => exact .named reachable found
  | product _ _ left right => exact .product left right
  | quotient _ _ left right => exact .quotient left right
  | power _ raised base => exact .power base raised
  | multiplied _ _ done left right => exact unit_of_multiply done ▸ .product left right
  | divided _ _ done left right => exact unit_of_divide done ▸ .quotient left right

/-! ### The bound -/

/-- No exponent exceeds the number of times that its atom was mentioned, times the limit. -/
def BoundedBy (mentions : UnitId → Nat) (u : Unit) : Prop :=
  ∀ id, (u.composite.count id).natAbs ≤ exponentLimit * mentions id

theorem BoundedBy.mul (left : BoundedBy mentions u) (right : BoundedBy others w) :
    BoundedBy (fun id => mentions id + others id) (u * w) := by
  intro id
  have counted : (u * w).composite.count id = u.composite.count id + w.composite.count id :=
    count_mul u.composite w.composite id
  rw [counted, Nat.mul_add]
  exact (Int.natAbs_add_le _ _).trans (Nat.add_le_add (left id) (right id))

theorem BoundedBy.div (left : BoundedBy mentions u) (right : BoundedBy others w) :
    BoundedBy (fun id => mentions id + others id) (u / w) := by
  intro id
  have counted : (u / w).composite.count id = u.composite.count id - w.composite.count id :=
    count_div u.composite w.composite id
  rw [counted, Nat.mul_add]
  exact (Int.natAbs_sub_le _ _).trans (Nat.add_le_add (left id) (right id))

theorem BoundedBy.powi (base : BoundedBy mentions u) {n : Int} (raised : u.powi n = .ok w) :
    BoundedBy mentions w := by
  obtain ⟨rfl, within⟩ := powi_eq_ok_iff.mp raised
  intro id
  -- An atom that was mentioned is within the limit, and one that was not does not occur.
  rcases Nat.eq_zero_or_pos (mentions id) with never | mentioned
  · have bounded := base id
    rw [never, Nat.mul_zero, Nat.le_zero, Int.natAbs_eq_zero] at bounded
    simp [count_zpow, bounded]
  · exact (within id).trans (Nat.le_mul_of_pos_right _ mentioned)

theorem boundedBy_atom (wf : r.WellFormed) {symbol : String} (found : r.atom symbol = .ok u) :
    BoundedBy (r.mentionsOf [symbol]) u := by
  rw [← resolve_atom, resolve_eq_ok_iff wf] at found
  obtain ⟨-, rfl⟩ := found
  exact fun id => Parse.natAbs_count_le_mentions symbol

theorem boundedBy_parseUnit (wf : r.WellFormed) {text : String} (read : r.parseUnit text = .ok u) :
    BoundedBy (r.mentionsOf (Parse.symbolsIn text.toList)) u := by
  obtain ⟨e, tree, resolved⟩ := bind_eq_ok.mp read
  obtain ⟨-, rfl⟩ := (resolve_eq_ok_iff wf).mp resolved
  exact Parse.natAbs_count_of_unit tree r.symbolMeaning

theorem Obtained.boundedBy (wf : r.WellFormed) (obtained : r.Obtained mentions u) :
    BoundedBy mentions u := by
  induction obtained with
  | parsed read => exact boundedBy_parseUnit wf read
  | named found => exact boundedBy_atom wf found
  | product _ _ left right => exact left.mul right
  | quotient _ _ left right => exact left.div right
  | power _ raised base => exact base.powi raised
  | multiplied _ _ done left right => exact unit_of_multiply done ▸ left.mul right
  | divided _ _ done left right => exact unit_of_divide done ▸ left.div right

/-! ### Reading back -/

theorem Elementary.expressible_iff (elementary : r.Elementary u) :
    r.Expressible u ↔ u.composite.WithinLimit := by
  rw [WithinLimit, ← forall_entries_iff (P := fun n => n.natAbs ≤ exponentLimit) (Nat.zero_le _)]
  constructor
  · exact fun expressible entry member => (expressible entry member).2
  · intro within entry member
    obtain ⟨symbol, scale, factor, known⟩ := elementary.of_mem member
    exact ⟨⟨_, known⟩, within entry member⟩

/-! ### Main result -/

/-- Powers have exponents within the limit and fail otherwise, as operations and in texts. Products
and quotients never fail, so that an exponent is only bounded by the number of times that its atom
was mentioned, times the limit. Where all symbols are symbols in texts too, a unit reads back if its
exponents are within the limit, and is refused as malformed if they are not. -/
theorem exponents_are_bounded (reachable : r.Reachable) (obtained : r.Obtained mentions u) :
    (∀ id, (u.composite.count id).natAbs ≤ exponentLimit * mentions id) ∧
    (∀ n, (u.composite.zpow n).WithinLimit ∧ u.powi n = .ok ⟨u.composite.zpow n⟩ ∨
      ¬ (u.composite.zpow n).WithinLimit ∧ u.powi n = .error (.powerOverflow n)) ∧
    (∀ text factor power base n, trimBlanks text.toList = factor ++ power →
      Parse.Derives .factor factor base → Parse.Power power n →
      (base.composite.zpow n).WithinLimit ∧
          r.parseUnit text = r.resolve (.ofComposite (base.composite.zpow n)) ∨
        ¬ (base.composite.zpow n).WithinLimit ∧
          ∃ reason, r.parseUnit text = .error (.malformed reason)) ∧
    (∀ others w, r.Obtained others w → ∀ x y,
      r.multiply ⟨x, u⟩ ⟨y, w⟩ = .ok ⟨x * y, u * w⟩ ∧
        r.divide ⟨x, u⟩ ⟨y, w⟩ = .ok ⟨x / y, u / w⟩) ∧
    (r.Legible →
      u.composite.WithinLimit ∧ r.parseUnit (r.unitText u) = .ok u ∧
          r.unitOfJson (r.unitToJson u) = .ok u ∨
        ¬ u.composite.WithinLimit ∧ ∃ reason,
          r.parseUnit (r.unitText u) = .error (.malformed reason) ∧
          r.unitOfJson (r.unitToJson u) = .error (UnitError.malformed reason).message) := by
  have wf := reachable.wellFormed
  have elementary := (obtained.built reachable).elementary
  refine ⟨obtained.boundedBy wf, ?powers, ?texts, ?products, ?back⟩
  case powers =>
    intro n
    by_cases within : (u.composite.zpow n).WithinLimit
    · exact .inl ⟨within, powi_eq_ok_iff.mpr ⟨rfl, within⟩⟩
    · exact .inr ⟨within, powi_eq_error_iff.mpr ⟨rfl, within⟩⟩
  case texts =>
    intro text factor power base n split derived exponent
    by_cases within : (base.composite.zpow n).WithinLimit
    · exact .inl ⟨within, parseUnit_eq_resolve (Parse.unit_powered split derived exponent within)⟩
    · obtain ⟨reason, malformed⟩ := Parse.unit_powered_malformed split derived exponent within
      exact .inr ⟨within, reason, by rw [parseUnit, malformed]; rfl⟩
  case products =>
    intro others w second x y
    have other := (second.built reachable).elementary
    constructor
    · rw [multiply, elementary.check, other.check]
      rfl
    · rw [divide, elementary.check, other.check]
      rfl
  case back =>
    intro legible
    by_cases within : u.composite.WithinLimit
    · have read := parseUnit_unitText wf legible elementary.plain (elementary.expressible_iff.mpr within)
      refine .inl ⟨within, read, ?_⟩
      rw [unitToJson, unitOfJson, read]
      rfl
    · obtain ⟨reason, refused⟩ := parseUnit_malformed legible elementary.plain
        (mt elementary.expressible_iff.mp within)
      refine .inr ⟨within, reason, refused, ?_⟩
      rw [unitToJson, unitOfJson, refused]
      rfl

theorem reachable_metric : metric.Reachable := .declared (.declared (.empty 0) _) _

theorem legible_metric : metric.Legible := by
  have units : metric.units = [⟨"m", .scaled ⟨0, 0⟩ 1⟩] := by decide +kernel
  intro unit member
  rw [units] at member
  obtain rfl := List.mem_singleton.mp member
  decide

theorem parseUnit_thousandth :
    metric.parseUnit "m^1000" = .ok ⟨(single ⟨0, 0⟩).zpow 1000⟩ := by decide +kernel

/-- The thousandth power of a metre reads back, and has no square. -/
theorem thousandth_power_is_the_last :
    metric.parseUnit "m^1000" = .ok ⟨(single ⟨0, 0⟩).zpow 1000⟩ ∧
      metric.parseUnit (metric.unitText ⟨(single ⟨0, 0⟩).zpow 1000⟩)
        = .ok ⟨(single ⟨0, 0⟩).zpow 1000⟩ ∧
      (⟨(single ⟨0, 0⟩).zpow 1000⟩ : Unit).powi 2 = .error (.powerOverflow 2) ∧
      ∃ reason, metric.parseUnit "m^1001" = .error (.malformed reason) := by
  obtain ⟨-, powers, texts, -, back⟩ :=
    exponents_are_bounded reachable_metric (.parsed parseUnit_thousandth)
  have within : ((single (⟨0, 0⟩ : UnitId)).zpow 1000).WithinLimit := by decide +kernel
  have beyond : ¬ (((single (⟨0, 0⟩ : UnitId)).zpow 1000).zpow 2).WithinLimit := by decide +kernel
  have beyondText : ¬ ((Expr.atom "m").composite.zpow 1001).WithinLimit := by decide +kernel
  -- The text with a larger power is taken apart by the grammar and not read.
  have power : Parse.Power ['^', '1', '0', '0', '1'] 1001 :=
    .hat (.unsigned ⟨[1, 0, 0, 1], by decide, by decide, by decide, by decide⟩)
  refine ⟨parseUnit_thousandth, ?_, ?_, ?_⟩
  · exact ((back legible_metric).resolve_right fun refused => refused.1 within).2.1
  · exact ((powers 2).resolve_left fun defined => beyond defined.1).2
  · exact ((texts "m^1001" ['m'] _ (.atom "m") 1001 (by decide +kernel) (.symbol (by decide))
      power).resolve_left fun defined => beyondText defined.1).2

/-- Products take exponents beyond the limit, as operations and in texts, and the product does not
read back; neither does a unit whose symbol is no symbol in texts. -/
theorem products_pass_the_limit :
    (metric.Reachable ∧ ∃ u mentions, metric.parseUnit "m^1000" = .ok u ∧
      metric.Obtained mentions (u * u) ∧ (u * u).composite.count ⟨0, 0⟩ = 2000 ∧
      ¬ (u * u).composite.WithinLimit ∧
      metric.unitText (u * u) = "m²⁰⁰⁰" ∧
      metric.parseUnit "m²⁰⁰⁰"
        = .error (.malformed (Parse.Fault.message ⟨false, .power, "m²⁰⁰⁰".toList⟩))) ∧
    (∃ u, metric.parseUnit "m^1000·m" = .ok u ∧ ¬ u.composite.WithinLimit) ∧
    awkward.Reachable ∧ ∃ u, awkward.atom "1" = .ok u ∧
      awkward.parseUnit (awkward.unitText u) = .ok .none ∧ u ≠ .none := by
  have obtained := Obtained.product (.parsed parseUnit_thousandth) (.parsed parseUnit_thousandth)
  have plain := (obtained.built reachable_metric).elementary.plain
  -- The text is found without spelling the unit out, which takes two thousand atoms.
  have text : metric.unitText (⟨(single ⟨0, 0⟩).zpow 1000⟩ * ⟨(single ⟨0, 0⟩).zpow 1000⟩) = "m²⁰⁰⁰" :=
    (unitText_eq plain).trans (by decide +kernel)
  exact ⟨⟨reachable_metric, _, _, parseUnit_thousandth, obtained, by decide +kernel,
      by decide +kernel, text, by decide +kernel⟩,
    ⟨⟨(single ⟨0, 0⟩).zpow 1001⟩, by decide +kernel, by decide +kernel⟩,
    reachable_awkward, ⟨single ⟨0, 1⟩⟩, by decide +kernel, by decide +kernel, by decide⟩

end Metrology.Registry
