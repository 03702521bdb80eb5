import Metrology.Proofs.Parse.Derivations
import Metrology.Proofs.Parse.Layout

/-!
# The symbols of a text

The symbols of a text are its longest rows of symbol characters (`symbolsIn`). The tree that is read
mentions no other symbols, and it mentions all of them unless a power gets rid of one: a power is
reduced as it is read, and a symbol is lost if the power is zero or if the symbol stands above the
bar of the factor as often as below (`CancelsInPower`). Products and quotients keep what they are
made of, also where it would cancel.
-/
namespace Metrology.Parse

open Composite

variable {text rest others name : List Char} {c : Char} {e left : Expr String} {phrase : Phrase}
  {a : String} {n : Int}

/-! ### Rows of symbol characters -/

def symbolsIn (text : List Char) : List String :=
  ((text.splitOnP fun c => !isSymbolChar c).filter (· ≠ [])).map String.ofList

theorem symbolsIn_nil : symbolsIn [] = [] := rfl

/-- No symbol goes on behind another character. -/
theorem symbolsIn_append_cons (other : isSymbolChar c = false) (text rest : List Char) :
    symbolsIn (text ++ c :: rest) = symbolsIn text ++ symbolsIn rest := by
  unfold symbolsIn
  rw [List.splitOnP_append_cons text rest (by simp [other]), List.filter_append, List.map_append]

theorem symbolsIn_cons (other : isSymbolChar c = false) (rest : List Char) :
    symbolsIn (c :: rest) = symbolsIn rest :=
  symbolsIn_append_cons other [] rest

theorem symbolsIn_append (stops : ∀ c ∈ rest.head?, isSymbolChar c = false) (text : List Char) :
    symbolsIn (text ++ rest) = symbolsIn text ++ symbolsIn rest := by
  cases rest with
  | nil => rw [List.append_nil, symbolsIn_nil, List.append_nil]
  | cons c rest =>
    have other := stops c rfl
    rw [symbolsIn_append_cons other, symbolsIn_cons other]

/-- Characters of no symbol may be left out in front. -/
theorem symbolsIn_skip (none : ∀ c ∈ others, isSymbolChar c = false) (rest : List Char) :
    symbolsIn (others ++ rest) = symbolsIn rest := by
  induction others with
  | nil => rfl
  | cons c others ih =>
    rw [List.cons_append, symbolsIn_cons (none c (by simp)),
      ih fun d member => none d (by simp [member])]

theorem symbolsIn_eq_nil (none : ∀ c ∈ others, isSymbolChar c = false) : symbolsIn others = [] := by
  have skipped := symbolsIn_skip none []
  rwa [List.append_nil] at skipped

theorem symbolsIn_symbol (symbolic : IsSymbol name) : symbolsIn name = [String.ofList name] := by
  have whole : name.splitOnP (fun c => !isSymbolChar c) = [name] :=
    List.splitOnP_eq_singleton fun c member => by simp [List.all_eq_true.mp symbolic.2 c member]
  rw [symbolsIn, whole]
  simp [symbolic.1]

theorem isSymbolChar_of_mem_splitOnP {row : List Char}
    (member : row ∈ text.splitOnP fun c => !isSymbolChar c) : ∀ c ∈ row, isSymbolChar c = true := by
  induction text generalizing row with
  | nil =>
    obtain rfl := List.mem_singleton.mp member
    simp
  | cons d text ih =>
    rw [List.splitOnP_cons_eq_if_modifyHead] at member
    split at member
    next =>
      rcases List.mem_cons.mp member with rfl | later
      · simp
      · exact ih later
    next symbolic =>
      -- The character is put in front of the first row.
      obtain ⟨first, rows, split⟩ := List.exists_cons_of_ne_nil
        (List.splitOnP_ne_nil (fun c => !isSymbolChar c) text)
      rw [split] at ih member
      rcases List.mem_cons.mp member with rfl | later
      · intro c inRow
        rcases List.mem_cons.mp inRow with rfl | inFirst
        · simpa using symbolic
        · exact ih List.mem_cons_self c inFirst
      · exact ih (List.mem_cons_of_mem _ later)

theorem isSymbol_of_mem_symbolsIn (member : a ∈ symbolsIn text) : IsSymbol a.toList := by
  obtain ⟨row, kept, rfl⟩ := List.mem_map.mp member
  obtain ⟨inText, nonempty⟩ := List.mem_filter.mp kept
  rw [String.toList_ofList]
  exact ⟨by simpa using nonempty, List.all_eq_true.mpr (isSymbolChar_of_mem_splitOnP inText)⟩

/-- Trimming takes blanks off both ends. -/
theorem exists_blanks (text : List Char) :
    ∃ before after, text = before ++ (trimBlanks text ++ after) ∧
      (∀ c ∈ before, isBlank c = true) ∧ ∀ c ∈ after, isBlank c = true := by
  refine ⟨text.takeWhile isBlank, ((text.dropWhile isBlank).reverse.takeWhile isBlank).reverse,
    ?_, List.all_eq_true.mp List.all_takeWhile, fun c member => ?_⟩
  · rw [trimBlanks, ← List.reverse_append, List.takeWhile_append_dropWhile, List.reverse_reverse,
      List.takeWhile_append_dropWhile]
  · exact List.all_eq_true.mp List.all_takeWhile c (List.mem_reverse.mp member)

/-- Blanks around a text are no part of a symbol. -/
theorem symbolsIn_trimBlanks (text : List Char) : symbolsIn (trimBlanks text) = symbolsIn text := by
  obtain ⟨before, after, split, blankBefore, blankAfter⟩ := exists_blanks text
  have noSymbol : ∀ {blanks : List Char}, (∀ c ∈ blanks, isBlank c = true) →
      ∀ c ∈ blanks, isSymbolChar c = false := fun blank c member => by
    simp [isSymbolChar, blank c member]
  have stops : ∀ c ∈ after.head?, isSymbolChar c = false := fun c first =>
    noSymbol blankAfter c (List.mem_of_mem_head? first)
  conv_rhs => rw [split]
  rw [symbolsIn_skip (noSymbol blankBefore), symbolsIn_append stops,
    symbolsIn_eq_nil (noSymbol blankAfter), List.append_nil]

/-! ### Symbols of phrases -/

theorem Spacing.noSymbol (spacing : Spacing text) : ∀ c ∈ text, isSymbolChar c = false := by
  intro c member
  rcases mem_of_isSpacing (spacing c member) with rfl | rfl <;> decide

theorem Separates.noSymbol {separator : Separator} (separates : Separates c separator) :
    isSymbolChar c = false := by
  cases separates <;> decide

theorem Signed.chars {minus plus : Char} {value? : Char → Option Nat}
    (signed : Signed minus plus value? text n) :
    ∀ c ∈ text, c = minus ∨ c = plus ∨ (value? c).isSome = true := by
  have digits : ∀ {row number}, Numeral value? row number →
      ∀ c ∈ row, c = minus ∨ c = plus ∨ (value? c).isSome = true :=
    fun numeral c member => .inr (.inr (numeral.digits.2.1 c member))
  cases signed with
  | unsigned numeral => exact digits numeral
  | positive numeral => exact List.forall_mem_cons.mpr ⟨.inr (.inl rfl), digits numeral⟩
  | negative numeral => exact List.forall_mem_cons.mpr ⟨.inl rfl, digits numeral⟩

theorem Power.noSymbol (exponent : Power text n) : ∀ c ∈ text, isSymbolChar c = false := by
  cases exponent with
  | hat signed =>
    refine List.forall_mem_cons.mpr ⟨by decide, fun c member => ?_⟩
    rcases signed.chars c member with rfl | rfl | digit
    · decide
    · decide
    · have decimal : c.isDigit = true := by
        by_contra other
        simp [digitValue?, other] at digit
      simp [isSymbolChar, decimal]
  | raised signed =>
    intro c member
    rcases signed.chars c member with rfl | rfl | digit
    · decide
    · decide
    · simp [isSymbolChar, digit]

theorem symbolsIn_unit (first : List Char) (more : Derives (.further left) rest e) :
    symbolsIn (first ++ rest) = symbolsIn first ++ symbolsIn rest := by
  have follows := more.follows_further ends_nil.1
  rw [List.append_nil] at follows
  exact symbolsIn_append (follows.head (by decide)) first

theorem symbolsIn_next {before after : List Char} {separator : Separator} {right : Expr String}
    (spacing : Spacing before) (separates : Separates c separator) (spacingAfter : Spacing after)
    (piece : List Char) (more : Derives (.further right) rest e) :
    symbolsIn (before ++ c :: (after ++ (piece ++ rest))) = symbolsIn piece ++ symbolsIn rest := by
  rw [symbolsIn_skip spacing.noSymbol, symbolsIn_cons separates.noSymbol,
    symbolsIn_skip spacingAfter.noSymbol, symbolsIn_unit piece more]

theorem symbolsIn_raised {power : List Char} (exponent : Power power n) (text : List Char) :
    symbolsIn (text ++ power) = symbolsIn text := by
  have stops : ∀ c ∈ power.head?, isSymbolChar c = false := fun c first =>
    exponent.noSymbol c (List.mem_of_mem_head? first)
  rw [symbolsIn_append stops, symbolsIn_eq_nil exponent.noSymbol, List.append_nil]

theorem symbolsIn_group {before after : List Char} (spacing : Spacing before)
    (spacingAfter : Spacing after) (text : List Char) :
    symbolsIn ('(' :: (before ++ (text ++ (after ++ [')'])))) = symbolsIn text := by
  have noSymbol : ∀ c ∈ after ++ [')'], isSymbolChar c = false := by
    intro c member
    rcases List.mem_append.mp member with inside | last
    · exact spacingAfter.noSymbol c inside
    · obtain rfl := List.mem_singleton.mp last
      decide
  have stops : ∀ c ∈ (after ++ [')']).head?, isSymbolChar c = false := fun c first =>
    noSymbol c (List.mem_of_mem_head? first)
  rw [symbolsIn_cons (by decide), symbolsIn_skip spacing.noSymbol, symbolsIn_append stops,
    symbolsIn_eq_nil noSymbol, List.append_nil]

/-! ### What the tree mentions -/

/-- The symbols that the tree so far mentions. -/
def Phrase.earlier : Phrase → List String
  | .further left => left.atoms
  | _ => []

theorem mem_atoms_powi? {base : Expr String} (defined : base.powi? n = some e) :
    a ∈ e.atoms ↔ ¬ (n = 0 ∨ base.signedCount a = 0) := by
  obtain ⟨c, raised, rfl⟩ := Option.map_eq_some_iff.mp defined
  rw [Expr.mem_atoms_ofComposite, eq_zpow_of_boundedPowi? raised, count_zpow, Expr.count_composite]
  simp [or_comm]

theorem mem_atoms_of_signedCount (occurs : e.signedCount a ≠ 0) : a ∈ e.atoms := by
  rw [← Expr.count_composite] at occurs
  exact Expr.allAtoms_value (fun b member => allAtoms_single.mpr member) a occurs

/-- The tree mentions symbols of its text only. -/
theorem Derives.mem_symbolsIn (derived : Derives phrase text e) (member : a ∈ e.atoms) :
    a ∈ phrase.earlier ∨ a ∈ symbolsIn text := by
  induction derived with
  | unit _ more first further =>
    rw [symbolsIn_unit _ more, List.mem_append]
    rcases further member with before | inTail
    · exact .inr (.inl ((first before).resolve_left nofun))
    · exact .inr (.inr inTail)
  | last => exact .inl member
  | next spacing separates spacingAfter _ more term further =>
    rw [symbolsIn_next spacing separates spacingAfter _ more, List.mem_append]
    rcases further member with joined | inTail
    · exact (mem_atoms_join.mp joined).imp_right fun inRight =>
        .inl ((term inRight).resolve_left nofun)
    · exact .inr (.inr inTail)
  | plain _ factor => exact factor member
  | raised _ exponent defined factor =>
    rw [symbolsIn_raised exponent]
    have left := (mem_atoms_powi? defined).mp member
    exact factor (mem_atoms_of_signedCount fun none => left (.inr none))
  | one => cases member
  | symbol symbolic => exact .inr (symbolsIn_symbol symbolic ▸ member)
  | group spacing _ spacingAfter inside =>
    rw [symbolsIn_group spacing spacingAfter]
    exact inside member

/-- Somewhere in a phrase a power is taken of a factor that has the symbol, and nothing of the symbol
is left in the power: the power is zero, or the symbol stands above the bar as often as below. -/
inductive CancelsInPower (a : String) : Phrase → List Char → Prop
  | here {text power : List Char} {base : Expr String} {n : Int} (factor : Derives .factor text base)
      (exponent : Power power n) (occurs : a ∈ symbolsIn text)
      (cancels : n = 0 ∨ base.signedCount a = 0) : CancelsInPower a .term (text ++ power)
  | first {first tail : List Char} {left e : Expr String} (inside : CancelsInPower a .term first)
      (term : Derives .term first left) (more : Derives (.further left) tail e) :
      CancelsInPower a .unit (first ++ tail)
  | further {first tail : List Char} {left : Expr String} (term : Derives .term first left)
      (inside : CancelsInPower a (.further left) tail) : CancelsInPower a .unit (first ++ tail)
  | next {before after piece tail : List Char} {c : Char} {separator : Separator}
      {left right e : Expr String} (spacing : Spacing before) (separates : Separates c separator)
      (spacingAfter : Spacing after) (term : Derives .term piece right)
      (inside : CancelsInPower a .term piece)
      (more : Derives (.further (separator.join left right)) tail e) :
      CancelsInPower a (.further left) (before ++ c :: (after ++ (piece ++ tail)))
  | beyond {before after piece tail : List Char} {c : Char} {separator : Separator}
      {left right : Expr String} (spacing : Spacing before) (separates : Separates c separator)
      (spacingAfter : Spacing after) (term : Derives .term piece right)
      (inside : CancelsInPower a (.further (separator.join left right)) tail) :
      CancelsInPower a (.further left) (before ++ c :: (after ++ (piece ++ tail)))
  | plain {text : List Char} (inside : CancelsInPower a .factor text) : CancelsInPower a .term text
  | raised {text power : List Char} {n : Int} (inside : CancelsInPower a .factor text)
      (exponent : Power power n) : CancelsInPower a .term (text ++ power)
  | group {before text after : List Char} (spacing : Spacing before)
      (inside : CancelsInPower a .unit text) (spacingAfter : Spacing after) :
      CancelsInPower a .factor ('(' :: (before ++ (text ++ (after ++ [')']))))

/-- The tree mentions every symbol of its text that does not cancel in a power. -/
theorem Derives.mem_atoms (derived : Derives phrase text e)
    (occurs : a ∈ phrase.earlier ∨ a ∈ symbolsIn text) :
    a ∈ e.atoms ∨ CancelsInPower a phrase text := by
  induction derived with
  | unit term more first further =>
    rw [symbolsIn_unit _ more, List.mem_append] at occurs
    rcases occurs with before | inFirst | inTail
    · cases before
    · rcases first (.inr inFirst) with mentioned | cancels
      · exact (further (.inl mentioned)).imp_right (.further term)
      · exact .inr (.first cancels term more)
    · exact (further (.inr inTail)).imp_right (.further term)
  | last => exact .inl (occurs.resolve_right nofun)
  | next spacing separates spacingAfter term more piece further =>
    rw [symbolsIn_next spacing separates spacingAfter _ more, List.mem_append] at occurs
    -- What the tree so far or this term mentions, or a later one, goes on to the end.
    have goesOn := fun mentioned =>
      (further mentioned).imp_right (CancelsInPower.beyond spacing separates spacingAfter term)
    rcases occurs with before | inPiece | inTail
    · exact goesOn (.inl (mem_atoms_join.mpr (.inl before)))
    · rcases piece (.inr inPiece) with mentioned | cancels
      · exact goesOn (.inl (mem_atoms_join.mpr (.inr mentioned)))
      · exact .inr (.next spacing separates spacingAfter term cancels more)
    · exact goesOn (.inr inTail)
  | plain _ factor => exact (factor occurs).imp_right .plain
  | raised base exponent defined _ =>
    rw [symbolsIn_raised exponent] at occurs
    -- The symbols of the factor are those that the power keeps and those that cancel in it.
    rw [mem_atoms_powi? defined, or_iff_not_imp_left, not_not]
    exact .here base exponent (occurs.resolve_left nofun)
  | one => exact .inl (occurs.resolve_left nofun)
  | symbol symbolic =>
    rw [symbolsIn_symbol symbolic] at occurs
    exact .inl (occurs.resolve_left nofun)
  | group spacing _ spacingAfter inside =>
    rw [symbolsIn_group spacing spacingAfter] at occurs
    exact (inside occurs).imp_right fun cancels => .group spacing cancels spacingAfter

/-- Nothing cancels where no power begins. -/
theorem CancelsInPower.any_beginsPower (cancels : CancelsInPower a phrase text) :
    text.any beginsPower = true := by
  induction cancels with
  | here _ exponent =>
    obtain ⟨c, others, rfl, begins⟩ := exponent.begins
    simp [begins]
  | first _ _ _ inside | further _ _ inside | next _ _ _ _ _ _ inside | beyond _ _ _ _ _ inside
    | raised _ _ inside | group _ _ _ inside => simp [inside]
  | plain _ inside => exact inside

/-! ### Whole texts -/

theorem unit_atom (symbolic : IsSymbol a.toList) : unit a = .ok (.atom a) := by
  refine unit_eq_ok_iff.mpr (.inr ?_)
  rw [trimBlanks_eq_self (isBlank_of_isSymbol symbolic)]
  exact .unit_of_term (.plain (derives_atom symbolic))

theorem mem_symbolsIn_of_unit {text : String} (read : unit text = .ok e) (member : a ∈ e.atoms) :
    a ∈ symbolsIn text.toList := by
  rcases unit_eq_ok_iff.mp read with ⟨-, rfl⟩ | derived
  · cases member
  · rw [← symbolsIn_trimBlanks]
    exact (derived.mem_symbolsIn member).resolve_left nofun

theorem isSymbol_of_mem_atoms {text : String} (read : unit text = .ok e) (member : a ∈ e.atoms) :
    IsSymbol a.toList :=
  isSymbol_of_mem_symbolsIn (mem_symbolsIn_of_unit read member)

theorem mem_atoms_of_unit {text : String} (read : unit text = .ok e)
    (occurs : a ∈ symbolsIn text.toList) :
    a ∈ e.atoms ∨ CancelsInPower a .unit (trimBlanks text.toList) := by
  rw [← symbolsIn_trimBlanks] at occurs
  rcases unit_eq_ok_iff.mp read with ⟨blank, -⟩ | derived
  · rw [blank] at occurs
    cases occurs
  · exact derived.mem_atoms (.inr occurs)

end Metrology.Parse
