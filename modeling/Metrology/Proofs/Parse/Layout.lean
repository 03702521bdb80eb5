import Metrology.Composite.Text
import Metrology.Proofs.Expr.Equality
import Metrology.Proofs.Parse.Chains

/-!
# Reading a written composite back

The text of a composite is an expression of a numerator, or the digit one, and at most one further
term for the denominator. It reads back if each atom does with its exponent, as a tree that denotes
the composite in every commutative group; if one atom does not, it is malformed.
-/
namespace Metrology.Parse

open Std Superscript

variable {α : Type} (name : α → String)

/-! ### The parts of a text -/

/-- One atom with its exponent. -/
def powerPart (separator : Separator) (entry : α × Int) : Part where
  separator := separator
  piece := (name entry.1).toList ++ (ofNat entry.2.natAbs).toList
  tree := powerTree (name entry.1) entry.2.natAbs

/-- What the text begins with: the first atom of the numerator, or the digit one. -/
def topPart : List (α × Int) → Part
  | [] => ⟨.times, ['1'], .noUnit⟩
  | entry :: _ => powerPart name .times entry

/-- The other atoms of the numerator. -/
def topParts (entries : List (α × Int)) : List Part := entries.tail.map (powerPart name .times)

/-- The denominator: nothing, one atom, or a group of several. -/
def bottomParts : List (α × Int) → List Part
  | [] => []
  | [entry] => [powerPart name .per entry]
  | entry :: others =>
    let first := powerPart name .times entry
    let more := others.map (powerPart name .times)
    [⟨.per, grouped (first.piece ++ written more), joined first.tree more⟩]

theorem toList_joinFactors (entry : α × Int) (others : List (α × Int)) :
    (Composite.joinFactors (Composite.factorTexts name (entry :: others))).toList =
      (powerPart name .times entry).piece ++ written (others.map (powerPart name .times)) := by
  unfold Composite.joinFactors Composite.factorTexts
  induction others generalizing entry with
  | nil => simp [powerPart, written]
  | cons next others ih =>
    have rest := ih next
    rw [List.map_cons] at rest
    rw [List.map_cons, List.map_cons, String.intercalate_cons_cons, String.toList_append, rest]
    simp [powerPart, written, Part.chars, Separator.char]

/-! ### What the parts mention -/

theorem mem_atoms_powerTree {symbol a : String} {n : Nat} (member : a ∈ (powerTree symbol n).atoms) :
    a = symbol := by
  unfold powerTree at member
  split at member
  · exact List.mem_singleton.mp member
  · rw [Expr.mem_atoms_ofComposite, Composite.count_zpow, Composite.count_single] at member
    by_contra differ
    simp [Ne.symm differ] at member

theorem mem_atoms_join {separator : Separator} {left right : Expr String} {a : String} :
    a ∈ (separator.join left right).atoms ↔ a ∈ left.atoms ∨ a ∈ right.atoms := by
  cases separator with
  | times => simp [Separator.join, Expr.mem_atoms_mul]
  | per => simp [Separator.join, Expr.atoms]

theorem mem_atoms_joined {e : Expr String} {parts : List Part} {a : String} :
    a ∈ (joined e parts).atoms ↔ a ∈ e.atoms ∨ ∃ part ∈ parts, a ∈ part.tree.atoms := by
  induction parts generalizing e with
  | nil => simp [joined]
  | cons part parts ih =>
    have split : joined e (part :: parts) = joined (part.separator.join e part.tree) parts := rfl
    rw [split, ih, mem_atoms_join]
    simp [or_assoc]

theorem mem_atoms_top {entries : List (α × Int)} {a : String}
    (member : a ∈ (joined (topPart name entries).tree (topParts name entries)).atoms) :
    ∃ entry ∈ entries, name entry.1 = a := by
  cases entries with
  | nil => cases member
  | cons entry others =>
    rcases mem_atoms_joined.mp member with first | ⟨part, present, later⟩
    · exact ⟨entry, by simp, (mem_atoms_powerTree first).symm⟩
    · obtain ⟨other, behind, rfl⟩ := List.mem_map.mp present
      have behind : other ∈ others := behind
      exact ⟨other, List.mem_cons_of_mem entry behind, (mem_atoms_powerTree later).symm⟩

theorem mem_atoms_bottom {entries : List (α × Int)} {part : Part} {a : String}
    (present : part ∈ bottomParts name entries) (member : a ∈ part.tree.atoms) :
    ∃ entry ∈ entries, name entry.1 = a := by
  match entries with
  | [] => cases present
  | [entry] =>
    obtain rfl := List.mem_singleton.mp present
    exact ⟨entry, by simp, (mem_atoms_powerTree member).symm⟩
  | entry :: next :: others =>
    obtain rfl := List.mem_singleton.mp present
    have inGroup : a ∈ (joined (topPart name (entry :: next :: others)).tree
        (topParts name (entry :: next :: others))).atoms := member
    exact mem_atoms_top name inGroup

/-! ### What the parts denote -/

section Value

variable {G : Type} [CommGroup G] (f : String → G)

theorem value_powerTree (symbol : String) (n : Nat) : (powerTree symbol n).value f = f symbol ^ n := by
  unfold powerTree
  split
  next one =>
    rw [one, pow_one]
    rfl
  next =>
    rw [← Expr.eval_composite, Expr.composite_ofComposite, Composite.zpow_eq_pow, map_zpow,
      Composite.eval_single, zpow_natCast]

theorem value_join_times (left right : Expr String) :
    (Separator.times.join left right).value f = left.value f * right.value f := by
  change (Expr.mul [left, right]).value f = _
  simp [Expr.value_mul]

theorem value_join_per (left right : Expr String) :
    (Separator.per.join left right).value f = left.value f / right.value f := rfl

theorem value_joined_powers (e : Expr String) (entries : List (α × Int)) :
    (joined e (entries.map (powerPart name .times))).value f =
      e.value f * (entries.map fun entry => f (name entry.1) ^ entry.2.natAbs).prod := by
  induction entries generalizing e with
  | nil => simp [joined]
  | cons entry entries ih =>
    have step : joined e ((entry :: entries).map (powerPart name .times)) =
        joined (Separator.times.join e (powerTree (name entry.1) entry.2.natAbs))
          (entries.map (powerPart name .times)) := rfl
    rw [step, ih, value_join_times, value_powerTree, List.map_cons, List.prod_cons, mul_assoc]

theorem value_top (entries : List (α × Int)) :
    (joined (topPart name entries).tree (topParts name entries)).value f =
      (entries.map fun entry => f (name entry.1) ^ entry.2.natAbs).prod := by
  cases entries with
  | nil => rfl
  | cons entry others =>
    have first : (topPart name (entry :: others)).tree = powerTree (name entry.1) entry.2.natAbs := rfl
    rw [topParts, List.tail_cons, value_joined_powers, first, value_powerTree, List.map_cons,
      List.prod_cons]

theorem value_bottom (e : Expr String) (entries : List (α × Int)) :
    (joined e (bottomParts name entries)).value f =
      e.value f / (entries.map fun entry => f (name entry.1) ^ entry.2.natAbs).prod := by
  match entries with
  | [] => simp [bottomParts, joined]
  | [entry] =>
    -- A single atom stands below the bar without parentheses.
    have one : joined e (bottomParts name [entry]) =
        Separator.per.join e (powerTree (name entry.1) entry.2.natAbs) := rfl
    simp [one, value_join_per, value_powerTree]
  | entry :: next :: others =>
    have several : joined e (bottomParts name (entry :: next :: others)) =
        Separator.per.join e (joined (powerTree (name entry.1) entry.2.natAbs)
          ((next :: others).map (powerPart name .times))) := rfl
    rw [several, value_join_per, value_joined_powers, value_powerTree, List.map_cons (a := entry),
      List.prod_cons]

theorem prod_sides (g : α → G) (entries : List (α × Int)) :
    ((entries.filter fun entry => 0 < entry.2).map fun entry => g entry.1 ^ entry.2.natAbs).prod /
      ((entries.filter fun entry => entry.2 < 0).map fun entry => g entry.1 ^ entry.2.natAbs).prod =
      (entries.map fun entry => g entry.1 ^ entry.2).prod := by
  induction entries with
  | nil => simp
  | cons entry entries ih =>
    rw [List.map_cons, List.prod_cons, ← ih]
    rcases Int.lt_trichotomy entry.2 0 with below | none | above
    · -- The power below the bar is that of the magnitude.
      have notAbove : ¬ 0 < entry.2 := by omega
      have power : g entry.1 ^ entry.2 = (g entry.1 ^ entry.2.natAbs)⁻¹ := by
        rw [← zpow_natCast, ← zpow_neg]
        congr 1
        omega
      simp [below, notAbove, power, div_eq_mul_inv, mul_comm, mul_left_comm]
    · simp [none]
    · have notBelow : ¬ entry.2 < 0 := by omega
      have power : g entry.1 ^ entry.2 = g entry.1 ^ entry.2.natAbs := by
        rw [← zpow_natCast]
        congr 1
        omega
      simp [above, notBelow, power, div_eq_mul_inv, mul_assoc]

end Value

/-! ### Whether the parts read back -/

/-- The atom is written as a symbol and its exponent is within the limit. -/
def Readable (entry : α × Int) : Prop :=
  IsSymbol (name entry.1).toList ∧ entry.2.natAbs ≤ Composite.exponentLimit

/-- The exponent of the atom is too large, or the atom has a number for a name. -/
def Unreadable (entry : α × Int) : Prop :=
  (IsSymbol (name entry.1).toList ∧ Composite.exponentLimit < entry.2.natAbs) ∨
    ∃ number, number ≠ [] ∧ (∀ c ∈ number, c.isDigit = true) ∧
      (name entry.1).toList = '#' :: number

section Reading

variable {name} {entry : α × Int} {entries : List (α × Int)}
  (inside : List Char → Outcome (Expr String)) (depth : Nat) (separator : Separator)

theorem isBlank_of_isSymbol {text : List Char} (symbolic : IsSymbol text) :
    ∀ c ∈ text, isBlank c = false := by
  intro c member
  have accepted := List.all_eq_true.mp symbolic.2 c member
  simp only [isSymbolChar, Bool.not_eq_true', Bool.or_eq_false_iff] at accepted
  exact accepted.1.1.1.1.1

theorem isBlank_power (dense : ∀ c ∈ (name entry.1).toList, isBlank c = false) :
    ∀ c ∈ (powerPart name separator entry).piece, isBlank c = false := by
  intro c member
  rcases List.mem_append.mp member with inName | inPower
  · exact dense c inName
  · rw [toList_ofNat] at inPower
    split at inPower
    · cases inPower
    · exact raised_cases (P := fun c => isBlank c = false) (by decide) (value?_of_mem_row inPower)

theorem reads_power (readable : Readable name entry) :
    Reads inside (powerPart name separator entry).piece (powerPart name separator entry).tree where
  dense := isBlank_power separator (isBlank_of_isSymbol readable.1)
  reads rest boundary := by
    have read := term_power inside readable.1 readable.2 boundary
    rw [String.ofList_toList] at read
    exact read

theorem refuses_power (unreadable : Unreadable name entry) :
    Refuses inside (powerPart name separator entry).piece where
  dense := by
    refine isBlank_power separator ?_
    rcases unreadable with ⟨symbolic, -⟩ | ⟨number, -, digits, named⟩
    · exact isBlank_of_isSymbol symbolic
    · intro c member
      rw [named] at member
      rcases List.mem_cons.mp member with rfl | digit
      · decide
      · exact digit_cases (P := fun c => isBlank c = false) (by decide) (digits c digit)
  stuck rest boundary e left read := by
    rcases unreadable with ⟨symbolic, large⟩ | ⟨number, some, digits, named⟩
    · exact stuck_of_large inside symbolic large boundary read
    · simp only [powerPart, named, List.append_assoc] at read
      exact stuck_of_number inside some digits read

theorem reads_one : Reads inside ['1'] .noUnit where
  dense := List.forall_mem_singleton.mpr (by decide)
  reads rest boundary := by simp [term, factor, power?_boundary boundary]

theorem reads_top (all : ∀ entry ∈ entries, Readable name entry) :
    Reads inside (topPart name entries).piece (topPart name entries).tree := by
  cases entries with
  | nil => exact reads_one inside
  | cons entry others => exact reads_power inside .times (all entry (by simp))

theorem reads_powers (all : ∀ entry ∈ entries, Readable name entry) :
    ∀ part ∈ entries.map (powerPart name separator), Reads inside part.piece part.tree := by
  intro part member
  obtain ⟨entry, present, rfl⟩ := List.mem_map.mp member
  exact reads_power inside separator (all entry present)

theorem reads_bottom (all : ∀ entry ∈ entries, Readable name entry) :
    ∀ part ∈ bottomParts name entries, Reads (unitWithin (depth + 1)) part.piece part.tree := by
  intro part member
  match entries with
  | [] => cases member
  | [entry] =>
    obtain rfl := List.mem_singleton.mp member
    exact reads_power _ .per (all entry (by simp))
  | entry :: next :: others =>
    obtain rfl := List.mem_singleton.mp member
    have first : Reads (unitWithin depth) (powerPart name .times entry).piece
        (powerPart name .times entry).tree := reads_power _ .times (all entry (by simp))
    have more := reads_powers (unitWithin depth) .times fun other present =>
      all other (List.mem_cons_of_mem entry present)
    exact reads_group first more

theorem settled_power (each : Readable name entry ∨ Unreadable name entry) :
    Reads inside (powerPart name separator entry).piece (powerPart name separator entry).tree ∨
      Refuses inside (powerPart name separator entry).piece :=
  each.imp (reads_power inside separator) (refuses_power inside separator)

theorem settled_top (each : ∀ entry ∈ entries, Readable name entry ∨ Unreadable name entry) :
    Reads inside (topPart name entries).piece (topPart name entries).tree ∨
      Refuses inside (topPart name entries).piece := by
  cases entries with
  | nil => exact .inl (reads_one inside)
  | cons entry others => exact settled_power inside .times (each entry (by simp))

theorem settled_powers (each : ∀ entry ∈ entries, Readable name entry ∨ Unreadable name entry) :
    ∀ part ∈ entries.map (powerPart name separator),
      Reads inside part.piece part.tree ∨ Refuses inside part.piece := by
  intro part member
  obtain ⟨entry, present, rfl⟩ := List.mem_map.mp member
  exact settled_power inside separator (each entry present)

theorem refuses_powers (some : ∃ entry ∈ entries, Unreadable name entry) :
    ∃ part ∈ entries.map (powerPart name separator), Refuses inside part.piece := by
  obtain ⟨entry, present, unreadable⟩ := some
  exact ⟨_, List.mem_map_of_mem present, refuses_power inside separator unreadable⟩

/-- One atom that cannot be read spoils the numerator. -/
theorem refuses_top (some : ∃ entry ∈ entries, Unreadable name entry) :
    Refuses inside (topPart name entries).piece ∨
      ∃ part ∈ topParts name entries, Refuses inside part.piece := by
  obtain ⟨entry, member, unreadable⟩ := some
  cases entries with
  | nil => cases member
  | cons first others =>
    rcases List.mem_cons.mp member with rfl | later
    · exact .inl (refuses_power inside .times unreadable)
    · exact .inr (refuses_powers inside .times ⟨entry, later, unreadable⟩)

/-- One atom that cannot be read spoils the whole denominator. -/
theorem refuses_bottom (each : ∀ entry ∈ entries, Readable name entry ∨ Unreadable name entry)
    (some : ∃ entry ∈ entries, Unreadable name entry) :
    ∃ part, bottomParts name entries = [part] ∧ Refuses (unitWithin (depth + 1)) part.piece := by
  match entries with
  | [] =>
    obtain ⟨entry, member, -⟩ := some
    cases member
  | [entry] =>
    obtain ⟨other, member, unreadable⟩ := some
    obtain rfl := List.mem_singleton.mp member
    exact ⟨_, rfl, refuses_power _ .per unreadable⟩
  | entry :: next :: others =>
    refine ⟨_, rfl, ?_⟩
    have settled : Settled (unitWithin depth) (powerPart name .times entry).piece
        (powerPart name .times entry).tree ((next :: others).map (powerPart name .times)) :=
      ⟨settled_power _ .times (each entry (by simp)), settled_powers _ .times fun other present =>
        each other (List.mem_cons_of_mem entry present)⟩
    exact refuses_group settled (refuses_top _ some)

theorem settled_bottom (each : ∀ entry ∈ entries, Readable name entry ∨ Unreadable name entry) :
    ∀ part ∈ bottomParts name entries, Reads (unitWithin (depth + 1)) part.piece part.tree ∨
      Refuses (unitWithin (depth + 1)) part.piece := by
  intro part member
  by_cases some : ∃ entry ∈ entries, Unreadable name entry
  · obtain ⟨only, same, refuses⟩ := refuses_bottom depth each some
    rw [same] at member
    obtain rfl := List.mem_singleton.mp member
    exact .inr refuses
  · have all : ∀ entry ∈ entries, Readable name entry := fun entry present =>
      (each entry present).resolve_right fun unreadable => some ⟨entry, present, unreadable⟩
    exact .inl (reads_bottom depth all part member)

end Reading

/-! ### The text of a composite -/

variable [Ord α]

def parts (c : Composite α) : List Part := topParts name c.above ++ bottomParts name c.below

/-- The tree that the text reads as. -/
def tree (c : Composite α) : Expr String := joined (topPart name c.above).tree (parts name c)

theorem tree_eq_joined (c : Composite α) :
    tree name c = joined (joined (topPart name c.above).tree (topParts name c.above))
      (bottomParts name c.below) := List.foldl_append

theorem eq_one_of_sides {c : Composite α} (noAbove : c.above = []) (noBelow : c.below = []) :
    c = 1 := by
  refine Composite.ext_entries (List.eq_nil_iff_forall_not_mem.mpr fun entry member => ?_)
  have notAbove := List.filter_eq_nil_iff.mp noAbove entry member
  have notBelow := List.filter_eq_nil_iff.mp noBelow entry member
  have notZero := c.nonzero entry member
  simp only [decide_eq_true_eq] at notAbove notBelow
  omega

theorem toList_text {c : Composite α} (occurs : c ≠ 1) :
    (c.text name).toList = (topPart name c.above).piece ++ written (parts name c) := by
  -- What stands before the bar, or the digit one in its place.
  have top : (if (Composite.factorTexts name c.above).isEmpty then "1"
      else Composite.joinFactors (Composite.factorTexts name c.above)).toList =
      (topPart name c.above).piece ++ written (topParts name c.above) := by
    cases c.above with
    | nil => simp [Composite.factorTexts, topPart, topParts, written]
    | cons entry others => exact toList_joinFactors name entry others
  unfold Composite.text parts
  dsimp only
  cases below : c.below with
  | nil =>
    cases above : c.above with
    | nil => exact absurd (eq_one_of_sides above below) occurs
    | cons entry others =>
      rw [bottomParts, List.append_nil]
      exact toList_joinFactors name entry others
  | cons entry others =>
    cases others with
    | nil =>
      have bottom : Composite.factorTexts name [entry] =
          [name entry.1 ++ ofNat entry.2.natAbs] := rfl
      simp only [bottom, String.toList_append, top]
      simp [bottomParts, written, Part.chars, Separator.char, powerPart]
    | cons next others =>
      have group := toList_joinFactors name entry (next :: others)
      have several : Composite.factorTexts name (entry :: next :: others) =
          (name entry.1 ++ ofNat entry.2.natAbs) :: (name next.1 ++ ofNat next.2.natAbs) ::
            Composite.factorTexts name others := rfl
      rw [several] at group ⊢
      simp only [String.toList_append, top, group]
      simp [bottomParts, written, Part.chars, Separator.char, grouped]

/-- The tree denotes what the composite does. -/
theorem value_tree [TransOrd α] [LawfulEqOrd α] {G : Type} [CommGroup G] (f : String → G)
    (c : Composite α) : (tree name c).value f = Composite.eval (fun a => f (name a)) c := by
  rw [Composite.eval_eq_prod, tree_eq_joined, value_bottom, value_top]
  exact prod_sides (fun a => f (name a)) c.entries

theorem mem_atoms_tree {c : Composite α} {a : String} (member : a ∈ (tree name c).atoms) :
    ∃ entry ∈ c.entries, name entry.1 = a := by
  rw [tree_eq_joined] at member
  rcases mem_atoms_joined.mp member with inTop | ⟨part, present, inBottom⟩
  · obtain ⟨entry, above, named⟩ := mem_atoms_top name inTop
    exact ⟨entry, List.mem_of_mem_filter above, named⟩
  · obtain ⟨entry, below, named⟩ := mem_atoms_bottom name present inBottom
    exact ⟨entry, List.mem_of_mem_filter below, named⟩

/-! ### Whether the text reads back -/

section Text

variable {name} {c : Composite α}

theorem text_ne_nil (each : ∀ entry ∈ c.entries, Readable name entry ∨ Unreadable name entry)
    (occurs : c ≠ 1) : (c.text name).toList ≠ [] := by
  have named : (topPart name c.above).piece ≠ [] := by
    cases above : c.above with
    | nil => exact List.cons_ne_nil _ _
    | cons entry others =>
      have present : entry ∈ c.entries := List.mem_of_mem_filter (above ▸ List.mem_cons_self)
      refine List.append_ne_nil_of_left_ne_nil ?_ _
      rcases each entry present with readable | large | ⟨number, -, -, named⟩
      · exact readable.1.1
      · exact large.1.1
      · simp [named]
  rw [toList_text name occurs]
  exact List.append_ne_nil_of_left_ne_nil named _

theorem reads_first (inside : List Char → Outcome (Expr String))
    (all : ∀ entry ∈ c.entries, Readable name entry) :
    Reads inside (topPart name c.above).piece (topPart name c.above).tree :=
  reads_top inside fun entry present => all entry (List.mem_of_mem_filter present)

theorem reads_parts (depth : Nat) (all : ∀ entry ∈ c.entries, Readable name entry) :
    ∀ part ∈ parts name c, Reads (unitWithin (depth + 1)) part.piece part.tree := by
  intro part member
  rcases List.mem_append.mp member with inTop | inBottom
  · exact reads_powers _ .times (fun entry present =>
      all entry (List.mem_of_mem_filter (List.mem_of_mem_tail present))) part inTop
  · exact reads_bottom depth (fun entry present => all entry (List.mem_of_mem_filter present))
      part inBottom

/-- A text that can be read has no blanks. -/
theorem dense_text (all : ∀ entry ∈ c.entries, Readable name entry) (occurs : c ≠ 1) :
    ∀ ch ∈ (c.text name).toList, isBlank ch = false := by
  rw [toList_text name occurs]
  exact dense_expression (reads_first (unitWithin 0) all).dense fun part present =>
    (reads_parts 0 all part present).dense

/-- The text of a composite reads as its tree if every atom can be read. -/
theorem unit_text_eq_ok (all : ∀ entry ∈ c.entries, Readable name entry) (occurs : c ≠ 1) :
    unit (c.text name) = .ok (tree name c) := by
  have some := text_ne_nil (fun entry present => .inl (all entry present)) occurs
  obtain ⟨depth, deep⟩ := Nat.exists_eq_succ_of_ne_zero (mt List.length_eq_zero_iff.mp some)
  refine unit_of_reads (toList_text name occurs) some (reads_first _ all) ?_
  rw [deep]
  exact reads_parts depth all

/-- The text of a composite is malformed if one of its atoms cannot be read. -/
theorem unit_text_eq_error
    (each : ∀ entry ∈ c.entries, Readable name entry ∨ Unreadable name entry)
    (unreadable : ∃ entry ∈ c.entries, Unreadable name entry) :
    ∃ reason, unit (c.text name) = .error (.malformed reason) := by
  obtain ⟨entry, present, spoiled⟩ := unreadable
  -- There is an atom, so the text is not empty.
  have occurs : c ≠ 1 := by
    rintro rfl
    cases present
  have some := text_ne_nil each occurs
  obtain ⟨depth, deep⟩ := Nat.exists_eq_succ_of_ne_zero (mt List.length_eq_zero_iff.mp some)
  have above : ∀ entry ∈ c.above, Readable name entry ∨ Unreadable name entry :=
    fun entry present => each entry (List.mem_of_mem_filter present)
  have below : ∀ entry ∈ c.below, Readable name entry ∨ Unreadable name entry :=
    fun entry present => each entry (List.mem_of_mem_filter present)
  refine unit_of_refuses (toList_text name occurs) some ⟨settled_top _ above, ?_⟩ ?_
  · rw [deep]
    intro part member
    rcases List.mem_append.mp member with inTop | inBottom
    · exact settled_powers _ .times
        (fun entry present => above entry (List.mem_of_mem_tail present)) part inTop
    · exact settled_bottom depth below part inBottom
  · rw [deep]
    -- The atom stands on one side of the bar.
    rcases Int.lt_or_lt_of_ne (c.nonzero entry present) with negative | positive
    · have inBelow : entry ∈ c.below := List.mem_filter.mpr ⟨present, by simpa using negative⟩
      obtain ⟨part, only, refuses⟩ := refuses_bottom depth below ⟨entry, inBelow, spoiled⟩
      refine .inr ⟨part, ?_, refuses⟩
      rw [parts, only]
      simp
    · have inAbove : entry ∈ c.above := List.mem_filter.mpr ⟨present, by simpa using positive⟩
      refine (refuses_top _ ⟨entry, inAbove, spoiled⟩).imp_right ?_
      rintro ⟨part, member, refuses⟩
      exact ⟨part, List.mem_append_left _ member, refuses⟩

end Text

end Metrology.Parse
