import Metrology.Expr.Text
import Metrology.Proofs.Expr.Equality
import Metrology.Proofs.Parse.Derivations
import Metrology.Proofs.Parse.Layout

/-!
# Reading the text of a tree back

The text of a tree is an expression of the grammar, but not one of the same shape: a product inside
a product is written without parentheses, and its terms are read as further terms of the outer one.
Terms that follow one expression can follow any other in the same way (`exists_further`), so that
regrouping them changes neither what is above the bar nor what is below. In this way the text of
every tree spells the tree (`Spells`), whatever its terms are, and the tree that is read has the
same canonical form.
-/
namespace Metrology.Parse

open Composite

variable {text tail : List Char} {left e last right : Expr String} {phrase : Phrase}

/-! ### Expressions put together -/

/-- More terms may follow those that have followed an expression. -/
theorem Derives.append_further (more : Derives (.further left) text e)
    (rest : Derives (.further e) tail last) : Derives (.further left) (text ++ tail) last := by
  generalize same : Phrase.further left = phrase at more
  induction more generalizing left with
  | last => cases same; exact rest
  | next spacing separates spacingAfter term _ _ further =>
    cases same
    have longer := Derives.next spacing separates spacingAfter term (further rest rfl)
    simpa using longer
  | _ => cases same

theorem Derives.append_unit (whole : Derives .unit text e) (rest : Derives (.further e) tail last) :
    Derives .unit (text ++ tail) last := by
  cases whole with
  | unit term more =>
    rw [List.append_assoc]
    exact .unit term (more.append_further rest)

theorem spacing_nil : Spacing [] := fun _ member => nomatch member

theorem Derives.term_of_unit (whole : Derives .unit text e) : Derives .term (grouped text) e := by
  have group : Derives .factor ('(' :: ([] ++ (text ++ ([] ++ [')'])))) e :=
    .group spacing_nil whole spacing_nil
  exact .plain group

/-- A term right behind its separator. -/
theorem Derives.adjacent {c : Char} {separator : Separator} (separates : Separates c separator)
    (term : Derives .term text right) (more : Derives (.further (separator.join left right)) tail e) :
    Derives (.further left) (c :: (text ++ tail)) e := by
  have next : Derives (.further left) ([] ++ c :: ([] ++ (text ++ tail))) e :=
    .next spacing_nil separates spacing_nil term more
  exact next

theorem Derives.further_per (term : Derives .term text right) (left : Expr String) :
    Derives (.further left) ('/' :: text) (Separator.per.join left right) := by
  have divided := term.adjacent .bar (.last (Separator.per.join left right))
  rwa [List.append_nil] at divided

/-! ### Regrouping -/

/-- What a further term contributes does not depend on what it follows. -/
theorem exists_composite_join (separator : Separator) (right : Expr String) :
    ∃ c, ∀ left, (separator.join left right).composite = left.composite * c := by
  cases separator with
  | times =>
    refine ⟨right.composite, fun left => ?_⟩
    simp [Separator.join, Expr.composite_mul]
  | per =>
    refine ⟨right.composite⁻¹, fun left => ?_⟩
    rw [Separator.join, Expr.composite_frac, div_eq_mul_inv]

/-- Terms that follow one expression may follow another, and contribute the same. -/
theorem Derives.exists_further (more : Derives (.further left) text e) (other : Expr String) :
    ∃ changed, Derives (.further other) text changed ∧
      changed.composite * left.composite = other.composite * e.composite := by
  generalize same : Phrase.further left = phrase at more
  induction more generalizing left other with
  | last =>
    cases same
    exact ⟨other, .last other, rfl⟩
  | @next _ _ _ _ _ separator _ right _ spacing separates spacingAfter term _ _ further =>
    cases same
    obtain ⟨changed, derived, balance⟩ := further (separator.join other right) rfl
    refine ⟨changed, .next spacing separates spacingAfter term derived, ?_⟩
    obtain ⟨c, joins⟩ := exists_composite_join separator right
    rw [joins, joins] at balance
    -- The contribution of the first of the terms stands on both sides.
    apply mul_right_cancel (b := c)
    rw [mul_assoc, balance, mul_right_comm]
  | _ => cases same

/-- An expression may be multiplied to another without parentheses. -/
theorem Derives.exists_further_times (whole : Derives .unit text right) (left : Expr String) :
    ∃ e, Derives (.further left) ('·' :: text) e ∧
      e.composite = left.composite * right.composite := by
  cases whole with
  | @unit first tail head _ term more =>
    obtain ⟨e, derived, balance⟩ := more.exists_further (Separator.times.join left head)
    refine ⟨e, .adjacent .dot term derived, ?_⟩
    have joined : (Separator.times.join left head).composite = left.composite * head.composite := by
      simp [Separator.join, Expr.composite_mul]
    rw [joined, mul_right_comm] at balance
    exact mul_right_cancel balance

/-! ### The text of a tree -/

/-- The text has no blanks and is an expression that counts every atom as the tree does. -/
structure Spells (text : String) (e : Expr String) : Prop where
  dense : ∀ c ∈ text.toList, isBlank c = false
  derived : ∃ y, Derives .unit text.toList y ∧ y.composite = e.composite

theorem toList_enclose (needed : Bool) (text : String) :
    (Expr.enclose needed text).toList = if needed then grouped text.toList else text.toList := by
  cases needed <;> simp [Expr.enclose, grouped]

theorem dense_enclose {text : String} (dense : ∀ c ∈ text.toList, isBlank c = false) (needed : Bool) :
    ∀ c ∈ (Expr.enclose needed text).toList, isBlank c = false := by
  rw [toList_enclose]
  cases needed with
  | true => exact dense_grouped dense
  | false => exact dense

theorem spells_one {e : Expr String} (none : e.composite = 1) : Spells "1" e where
  dense := List.forall_mem_singleton.mpr (by decide)
  derived := ⟨.noUnit, .unit_of_term (.plain .one), none.symm⟩

theorem spells_atom {a : String} (symbolic : IsSymbol a.toList) : Spells a (.atom a) where
  dense := isBlank_of_isSymbol symbolic
  derived := ⟨.atom a, .unit_of_term (.plain (derives_atom symbolic)), rfl⟩

/-- Parentheses change nothing. -/
theorem Spells.enclose {text : String} (spells : Spells text e) (needed : Bool) :
    Spells (Expr.enclose needed text) e where
  dense := dense_enclose spells.dense needed
  derived := by
    rw [toList_enclose]
    cases needed with
    | true =>
      obtain ⟨y, derived, same⟩ := spells.derived
      exact ⟨y, .unit_of_term derived.term_of_unit, same⟩
    | false => exact spells.derived

/-- What stands below the bar is a single term: a product or fraction has parentheses there, and
nothing else needs them. -/
theorem Spells.exists_term {den : Expr String} (spells : Spells (den.text id) den)
    (symbolic : ∀ a ∈ den.atoms, IsSymbol a.toList) :
    ∃ y, Derives .term (Expr.enclose den.isCompound (den.text id)).toList y ∧
      y.composite = den.composite := by
  rw [toList_enclose]
  cases den with
  | noUnit => exact ⟨.noUnit, .plain .one, rfl⟩
  | atom a => exact ⟨.atom a, .plain (derives_atom (symbolic a (by simp [Expr.atoms]))), rfl⟩
  | mul | frac =>
    obtain ⟨y, derived, same⟩ := spells.derived
    exact ⟨y, derived.term_of_unit, same⟩

/-- Whatever denotes the same is spelled by the same text. -/
theorem Spells.congr {text : String} {x y : Expr String} (spells : Spells text x)
    (same : x.composite = y.composite) : Spells text y where
  dense := spells.dense
  derived := same ▸ spells.derived

/-- Two texts with a dot between them spell a product. -/
theorem Spells.times {first second : String} {x y : Expr String} (left : Spells first x)
    (right : Spells second y) : Spells (first ++ "·" ++ second) (.mul [x, y]) where
  dense := by
    intro c member
    simp only [String.toList_append, List.mem_append, or_assoc] at member
    rcases member with inFirst | dot | inSecond
    · exact left.dense c inFirst
    · obtain rfl := List.mem_singleton.mp dot
      decide
    · exact right.dense c inSecond
  derived := by
    obtain ⟨u, begins, sameFirst⟩ := left.derived
    obtain ⟨w, goesOn, sameSecond⟩ := right.derived
    obtain ⟨e, further, product⟩ := goesOn.exists_further_times u
    refine ⟨e, ?_, ?_⟩
    · have whole := begins.append_unit further
      simpa using whole
    · rw [product, sameFirst, sameSecond]
      simp [Expr.composite_mul]

/-- The terms of a product, one after another. -/
theorem Spells.product {text : String} {first : Expr String} {terms : List (Expr String)}
    (begins : Spells text first) (each : ∀ term ∈ terms, Spells (term.text id) term) :
    Spells (text ++ Expr.textOfTerms id terms) (.mul (first :: terms)) := by
  induction terms generalizing text first with
  | nil =>
    rw [Expr.textOfTerms, String.append_empty]
    exact begins.congr (by simp [Expr.composite_mul])
  | cons term terms ih =>
    -- The first two terms together are what the remaining ones follow.
    have two := begins.times ((each term (by simp)).enclose term.isFrac)
    have all := ih two fun other member => each other (by simp [member])
    have same : text ++ Expr.textOfTerms id (term :: terms) = text ++ "·" ++
        Expr.enclose term.isFrac (term.text id) ++ Expr.textOfTerms id terms := by
      simp [Expr.textOfTerms, String.append_assoc]
    rw [same]
    exact all.congr (by simp [Expr.composite_mul, mul_assoc])

theorem Spells.quotient {num den : Expr String} (above : Spells (num.text id) num)
    (below : Spells (den.text id) den) (symbolic : ∀ a ∈ den.atoms, IsSymbol a.toList) :
    Spells ((Expr.frac num den).text id) (.frac num den) where
  dense := by
    intro c member
    simp only [Expr.text, String.toList_append, List.mem_append, or_assoc] at member
    rcases member with inNum | bar | inDen
    · exact dense_enclose above.dense _ c inNum
    · obtain rfl := List.mem_singleton.mp bar
      decide
    · exact dense_enclose below.dense _ c inDen
  derived := by
    obtain ⟨u, top, sameTop⟩ := (above.enclose num.isFrac).derived
    obtain ⟨w, bottom, sameBottom⟩ := below.exists_term symbolic
    refine ⟨Separator.per.join u w, ?_, ?_⟩
    · have whole := top.append_unit (bottom.further_per u)
      simpa [Expr.text] using whole
    · rw [Separator.join, Expr.composite_frac, Expr.composite_frac, sameTop, sameBottom]

/-- The text of every tree over symbols spells the tree. -/
theorem spells_text {x : Expr String} (symbolic : ∀ a ∈ x.atoms, IsSymbol a.toList) :
    Spells (x.text id) x := by
  induction x using Expr.induct with
  | noUnit => exact spells_one rfl
  | atom a => exact spells_atom (symbolic a (by simp [Expr.atoms]))
  | mul terms each =>
    have spelled : ∀ term ∈ terms, Spells (term.text id) term := fun term member =>
      each term member fun a inside => symbolic a (Expr.mem_atoms_mul.mpr ⟨term, member, inside⟩)
    cases terms with
    | nil => exact spells_one rfl
    | cons first terms =>
      have begins := (spelled first (by simp)).enclose first.isFrac
      exact begins.product fun term member => spelled term (by simp [member])
  | frac num den above below =>
    have inNum := above fun a member => symbolic a (by simp [Expr.atoms, member])
    have inDen : ∀ a ∈ den.atoms, IsSymbol a.toList := fun a member =>
      symbolic a (by simp [Expr.atoms, member])
    exact inNum.quotient (below inDen) inDen

theorem Spells.unit_eq_ok {text : String} (spells : Spells text e) :
    ∃ y, unit text = .ok y ∧ y.composite = e.composite := by
  obtain ⟨y, derived, same⟩ := spells.derived
  refine ⟨y, unit_eq_ok_iff.mpr (.inr ?_), same⟩
  rwa [trimBlanks_eq_self spells.dense]

/-- The text of a tree of any shape is read as a tree with the same canonical form. -/
theorem tree_reads_back (x : Expr String) (symbolic : ∀ a ∈ x.atoms, IsSymbol a.toList) :
    ∃ y, unit (toString x) = .ok y ∧ y.reduce = x.reduce := by
  obtain ⟨y, read, same⟩ := (spells_text symbolic).unit_eq_ok
  exact ⟨y, read, Expr.reduce_eq_iff.mpr same⟩

/-- Products within products are flattened, and a product of one fraction keeps its parentheses. -/
theorem degenerate_tree_reads_back :
    let x : Expr String := .frac
      (.mul [.mul [.frac (.atom "m") (.mul [])], .mul [.atom "kg", .mul [.noUnit, .atom "m"]]])
      (.frac (.mul [.atom "s", .atom "s"]) (.frac .noUnit (.atom "s")))
    toString x = "(m/(1))·kg·1·m/(s·s/(1/s))" ∧
      ∃ y, unit "(m/(1))·kg·1·m/(s·s/(1/s))" = .ok y ∧ y.reduce = x.reduce := by
  intro x
  have text : toString x = "(m/(1))·kg·1·m/(s·s/(1/s))" := by decide +kernel
  refine ⟨text, ?_⟩
  rw [← text]
  exact tree_reads_back x (by decide +kernel)

end Metrology.Parse
