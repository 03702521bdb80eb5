import Mathlib.Algebra.Order.BigOperators.Group.List
import Metrology.Proofs.Composite.Powers
import Metrology.Proofs.Parse.Symbols

/-!
# Exponents in texts

Each power in a text is within the limit, or the text is malformed (`unit_powered`,
`unit_powered_malformed`). Products and quotients are not checked. So whatever the symbols stand for,
a text counts each atom at most as often as its symbols mention the atom, times the limit
(`natAbs_count_of_unit`).
-/
namespace Metrology.Parse

open Std Composite

variable {β : Type} [Ord β] [TransOrd β] {text rest : List Char} {e left right base : Expr String}
  {phrase : Phrase} {n : Int}

/-- How often symbols mention an atom by what they stand for, on either side of the bar. -/
def mentions (f : String → Composite β) (b : β) (symbols : List String) : Nat :=
  (symbols.map fun a => ((f a).count b).natAbs).sum

variable {f : String → Composite β} {b : β}

omit [TransOrd β] in
theorem mentions_append (first second : List String) :
    mentions f b (first ++ second) = mentions f b first + mentions f b second := by
  rw [mentions, List.map_append, List.sum_append]
  rfl

omit [TransOrd β] in
/-- What a symbol stands for is mentioned by the symbol; the limit leaves room for it. -/
theorem natAbs_count_le_mentions (a : String) :
    ((f a).count b).natAbs ≤ exponentLimit * mentions f b [a] := by
  have atLeastOne : 0 < exponentLimit := by decide
  calc ((f a).count b).natAbs
      = mentions f b [a] := by simp [mentions]
    _ ≤ exponentLimit * mentions f b [a] := Nat.le_mul_of_pos_left _ atLeastOne

omit [TransOrd β] in
/-- Symbols of a list, each once, mention no more than the list. -/
theorem mentions_le_of_subset {some all : List String} (distinct : some.Nodup)
    (among : ∀ a ∈ some, a ∈ all) : mentions f b some ≤ mentions f b all := by
  obtain ⟨permuted, perm, sublist⟩ := List.subperm_of_subset distinct among
  calc mentions f b some
      = mentions f b permuted := ((perm.map _).sum_eq).symm
    _ ≤ mentions f b all := (sublist.map _).sum_le_sum fun _ _ => Nat.zero_le _

/-! ### Composites of symbols -/

omit [TransOrd β] in
theorem natAbs_sum_le {entries : List (String × Int)}
    (each : ∀ entry ∈ entries, entry.2.natAbs ≤ exponentLimit) :
    (entries.map fun entry => entry.2 * (f entry.1).count b).sum.natAbs ≤
      exponentLimit * mentions f b (entries.map (·.1)) := by
  induction entries with
  | nil => exact Nat.zero_le _
  | cons entry rest ih =>
    obtain ⟨first, later⟩ := List.forall_mem_cons.mp each
    have scaled : (entry.2 * (f entry.1).count b).natAbs
        ≤ exponentLimit * ((f entry.1).count b).natAbs := by
      rw [Int.natAbs_mul]
      exact Nat.mul_le_mul_right _ first
    have others := ih later
    simp only [mentions, List.map_cons, List.sum_cons, Nat.mul_add] at others ⊢
    exact (Int.natAbs_add_le _ _).trans (Nat.add_le_add scaled others)

/-- A composite within the limit counts an atom at most as often as its symbols mention the atom,
times the limit. -/
theorem natAbs_count_eval_le [LawfulEqOrd β] {c : Composite String} (within : c.WithinLimit) :
    ((eval f c).count b).natAbs ≤ exponentLimit * mentions f b (c.entries.map (·.1)) := by
  rw [count_eval]
  exact natAbs_sum_le ((forall_entries_iff (P := fun n => n.natAbs ≤ exponentLimit)
    (Nat.zero_le _)).mpr within)

theorem nodup_atoms (c : Composite String) : (c.entries.map (·.1)).Nodup := by
  refine List.pairwise_map.mpr (c.sorted.imp fun {x y} before same => ?_)
  rw [same] at before
  simp at before

/-! ### Trees -/

variable [LawfulEqOrd β]

theorem natAbs_count_join_le (separator : Separator) (left right : Expr String) :
    (((separator.join left right).value f).count b).natAbs ≤
      ((left.value f).count b).natAbs + ((right.value f).count b).natAbs := by
  cases separator with
  | times =>
    have product : (Separator.times.join left right).value f = left.value f * right.value f :=
      value_join_times f left right
    rw [product, count_mul]
    exact Int.natAbs_add_le _ _
  | per =>
    have quotient : (Separator.per.join left right).value f = left.value f / right.value f :=
      value_join_per f left right
    rw [quotient, count_div]
    exact Int.natAbs_sub_le _ _

/-- A power is within the limit, so that the symbols it mentions need not be counted twice. -/
theorem natAbs_count_powi?_le (defined : base.powi? n = some e) {symbols : List String}
    (among : ∀ a ∈ e.atoms, a ∈ symbols) :
    ((e.value f).count b).natAbs ≤ exponentLimit * mentions f b symbols := by
  obtain ⟨power, raised, rfl⟩ := Option.map_eq_some_iff.mp defined
  have within := (boundedPowi?_eq_some_iff.mp raised).2
  have value : (Expr.ofComposite power).value f = eval f power := by
    rw [← Expr.eval_composite, Expr.composite_ofComposite]
  have listed : ∀ a ∈ power.entries.map (·.1), a ∈ symbols := by
    intro a member
    obtain ⟨entry, present, rfl⟩ := List.mem_map.mp member
    obtain ⟨notZero, counted⟩ := mem_entries_iff.mp present
    exact among _ (Expr.mem_atoms_ofComposite.mpr (counted ▸ notZero))
  rw [value]
  exact (natAbs_count_eval_le within).trans
    (Nat.mul_le_mul_left _ (mentions_le_of_subset (nodup_atoms power) listed))

/-- How often the tree so far counts an atom. -/
def Phrase.counted (f : String → Composite β) (b : β) : Phrase → Nat
  | .further left => ((left.value f).count b).natAbs
  | _ => 0

/-- What a phrase means counts an atom at most as often as the tree before it and as the symbols in
it mention the atom, times the limit. -/
theorem Derives.natAbs_count_le (derived : Derives phrase text e) (f : String → Composite β) (b : β) :
    ((e.value f).count b).natAbs ≤
      phrase.counted f b + exponentLimit * mentions f b (symbolsIn text) := by
  induction derived with
  | unit _ more first further =>
    rw [symbolsIn_unit _ more, mentions_append, Nat.mul_add]
    simp only [Phrase.counted] at first further ⊢
    omega
  | last => exact Nat.le_add_right _ _
  | @next before after piece tail c separator left right e spacing separates spacingAfter _ more term
      further =>
    rw [symbolsIn_next spacing separates spacingAfter _ more, mentions_append, Nat.mul_add]
    -- The tree so far and this term are the tree so far of what comes after.
    have joined := natAbs_count_join_le (f := f) (b := b) separator left right
    simp only [Phrase.counted] at term further ⊢
    omega
  | plain _ factor => exact factor
  | raised factor exponent defined =>
    -- What the factor alone would count does not matter: the power has been checked as a whole.
    refine (natAbs_count_powi?_le defined fun a member => ?_).trans (Nat.le_add_left _ _)
    exact ((Derives.raised factor exponent defined).mem_symbolsIn member).resolve_left nofun
  | one => exact Nat.zero_le _
  | @symbol name symbolic =>
    rw [symbolsIn_symbol symbolic]
    exact (natAbs_count_le_mentions (String.ofList name)).trans (Nat.le_add_left _ _)
  | group spacing _ spacingAfter inside =>
    rw [symbolsIn_group spacing spacingAfter]
    exact inside

/-! ### Whole texts -/

/-- Whatever its symbols stand for, a text counts an atom at most as often as they mention the atom,
times the limit. -/
theorem natAbs_count_of_unit {text : String} (read : unit text = .ok e) (f : String → Composite β)
    (b : β) :
    ((e.value f).count b).natAbs ≤ exponentLimit * mentions f b (symbolsIn text.toList) := by
  rcases unit_eq_ok_iff.mp read with ⟨-, rfl⟩ | derived
  · exact Nat.zero_le _
  · have bounded := derived.natAbs_count_le f b
    simpa [symbolsIn_trimBlanks, Phrase.counted] using bounded

/-- A power of a factor within the limit is read as the power. -/
theorem unit_powered {text : String} {factor power : List Char}
    (split : trimBlanks text.toList = factor ++ power) (derived : Derives .factor factor base)
    (exponent : Power power n) (within : (base.composite.zpow n).WithinLimit) :
    unit text = .ok (.ofComposite (base.composite.zpow n)) := by
  have defined : base.powi? n = some (.ofComposite (base.composite.zpow n)) :=
    Option.map_eq_some_iff.mpr ⟨_, boundedPowi?_eq_some_iff.mpr ⟨rfl, within⟩, rfl⟩
  refine unit_eq_ok_iff.mpr (.inr ?_)
  rw [split]
  exact .unit_of_term (.raised derived exponent defined)

/-- After a factor, a power beyond the limit is a fault. -/
theorem unitExpr_powered {factor power : List Char} (derived : Derives .factor factor base)
    (exponent : Power power n) (beyond : ¬ (base.composite.zpow n).WithinLimit) :
    unitExpr (factor ++ power) = .error ⟨false, .power, factor ++ power⟩ := by
  have undefined : base.powi? n = none :=
    Option.map_eq_none_iff.mpr (boundedPowi?_eq_none_iff.mpr beyond)
  have stops : ∀ c ∈ power.head?, isSymbolChar c = false := fun c first =>
    exponent.noSymbol c (List.mem_of_mem_head? first)
  have read := derived.reads (factor ++ power).length (by simp) power stops
  have number := exponent.power? ends_nil.1
  rw [List.append_nil] at number
  simp only [unitExpr, unitWithin, term, read, number, undefined]

/-- A power of a factor beyond the limit is malformed. -/
theorem unit_powered_malformed {text : String} {factor power : List Char}
    (split : trimBlanks text.toList = factor ++ power) (derived : Derives .factor factor base)
    (exponent : Power power n) (beyond : ¬ (base.composite.zpow n).WithinLimit) :
    ∃ reason, unit text = .error (.malformed reason) := by
  have fault := unitExpr_powered derived exponent beyond
  obtain ⟨c, others, rfl, -⟩ := derived.starts
  refine ⟨Fault.message ⟨false, .power, c :: others ++ power⟩, ?_⟩
  rw [unit, split]
  exact congrArg complete fault

end Metrology.Parse
