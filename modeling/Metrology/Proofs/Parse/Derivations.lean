import Metrology.Proofs.Parse.Chains
import Metrology.Proofs.Parse.Powers

/-!
# The reader accepts just the grammar

Whatever is read has been derived: each reader takes a phrase off the front of the text and leaves
the rest (`derives_of_unitWithin`). Whatever is derived is read: no choice that a reader commits
itself to can lose a derivation, because what follows a phrase is always a character with which the
phrase could not have gone on (`Follows`, `Ends`). The second half is an induction on the derivation
for all depths of nesting that its text leaves room for (`Derives.reads`).
-/
namespace Metrology.Parse

open Superscript

variable {text read rest : List Char} {e left : Expr String} {phrase : Phrase}

/-! ### Whatever is read has been derived -/

theorem exists_spacing (text : List Char) :
    ∃ spaces, Spacing spaces ∧ text = spaces ++ dropSpacing text :=
  ⟨text.takeWhile isSpacing, List.all_eq_true.mp List.all_takeWhile,
    List.takeWhile_append_dropWhile.symm⟩

theorem separates_of_separator? {separator : Separator} (found : separator? text = some (separator, rest)) :
    ∃ c, text = c :: rest ∧ Separates c separator := by
  unfold separator? at found
  split at found
  next => cases found; exact ⟨'*', rfl, .star⟩
  next => cases found; exact ⟨'·', rfl, .dot⟩
  next => cases found; exact ⟨'⋅', rfl, .operator⟩
  next => cases found; exact ⟨'/', rfl, .bar⟩
  next => cases found

section Sound

variable {inside : List Char → Outcome (Expr String)}

/-- The reader takes nothing but expressions off the front of a text. -/
def Sound (inside : List Char → Outcome (Expr String)) : Prop :=
  ∀ text e rest, inside text = .ok (e, rest) → ∃ read, text = read ++ rest ∧ Derives .unit read e

theorem derives_of_symbol (found : symbol text = .ok (e, rest)) :
    ∃ read, text = read ++ rest ∧ Derives .factor read e := by
  unfold symbol at found
  split at found
  · cases found
  next some =>
    obtain ⟨rfl, rfl⟩ := Prod.mk.inj (Except.ok.inj found)
    exact ⟨_, List.takeWhile_append_dropWhile.symm, .symbol ⟨some, List.all_takeWhile⟩⟩

theorem derives_of_factor (sound : Sound inside) (found : factor inside text = .ok (e, rest)) :
    ∃ read, text = read ++ rest ∧ Derives .factor read e := by
  unfold factor at found
  split at found
  next others =>
    -- A group: spacing, an expression, spacing and the closing parenthesis.
    obtain ⟨before, spacing, split⟩ := exists_spacing others
    split at found
    next inner left within =>
      obtain ⟨read, splitInner, derived⟩ := sound _ _ _ within
      obtain ⟨after, spacingAfter, splitAfter⟩ := exists_spacing left
      split at found
      next last closed =>
        obtain ⟨rfl, rfl⟩ := Prod.mk.inj (Except.ok.inj found)
        refine ⟨_, ?_, .group spacing derived spacingAfter⟩
        rw [split, splitInner, splitAfter, closed]
        simp
      next => cases found
    next => cases found
  next others =>
    obtain ⟨rfl, rfl⟩ := Prod.mk.inj (Except.ok.inj found)
    exact ⟨['1'], rfl, .one⟩
  next => exact derives_of_symbol found

theorem derives_of_term (sound : Sound inside) (found : term inside text = .ok (e, rest)) :
    ∃ read, text = read ++ rest ∧ Derives .term read e := by
  unfold term at found
  split at found
  · cases found
  next base left read =>
    obtain ⟨piece, rfl, derived⟩ := derives_of_factor sound read
    split at found
    next =>
      obtain ⟨rfl, rfl⟩ := Prod.mk.inj (Except.ok.inj found)
      exact ⟨piece, rfl, .plain derived⟩
    next n last raised =>
      obtain ⟨power, rfl, exponent⟩ := power_of_power? raised
      split at found
      next defined =>
        obtain ⟨rfl, rfl⟩ := Prod.mk.inj (Except.ok.inj found)
        exact ⟨piece ++ power, (List.append_assoc ..).symm, .raised derived exponent defined⟩
      next => cases found

theorem derives_of_continued (sound : Sound inside) {more : Nat}
    (found : continued inside more left text = (e, rest)) :
    ∃ read, text = read ++ rest ∧ Derives (.further left) read e := by
  induction more generalizing left text with
  | zero =>
    obtain ⟨rfl, rfl⟩ := Prod.mk.inj found
    exact ⟨[], rfl, .last _⟩
  | succ more ih =>
    -- Where the reader stops, nothing more is taken.
    have stopped : ∀ {tree left : Expr String}, (tree, text) = (e, rest) → tree = left →
        ∃ read, text = read ++ rest ∧ Derives (.further left) read e := by
      rintro _ left same rfl
      obtain ⟨rfl, rfl⟩ := Prod.mk.inj same
      exact ⟨[], rfl, .last _⟩
    unfold continued at found
    split at found
    next => exact stopped found rfl
    next separator others joins =>
      obtain ⟨before, spacing, splitBefore⟩ := exists_spacing text
      obtain ⟨c, splitChar, separates⟩ := separates_of_separator? joins
      obtain ⟨after, spacingAfter, splitAfter⟩ := exists_spacing others
      split at found
      next => exact stopped found rfl
      next right left read =>
        obtain ⟨piece, splitPiece, derived⟩ := derives_of_term sound read
        obtain ⟨tail, splitTail, more⟩ := ih found
        refine ⟨_, ?_, .next spacing separates spacingAfter derived more⟩
        rw [splitBefore, splitChar, splitAfter, splitPiece, splitTail]
        simp

theorem derives_of_unitWithin (depth : Nat) : Sound (unitWithin depth) := by
  induction depth with
  | zero =>
    intro text e rest found
    cases found
  | succ depth ih =>
    intro text e rest found
    unfold unitWithin at found
    split at found
    · cases found
    next first others read =>
      obtain ⟨piece, rfl, derived⟩ := derives_of_term ih read
      obtain ⟨tail, rfl, more⟩ := derives_of_continued ih (Except.ok.inj found)
      exact ⟨piece ++ tail, (List.append_assoc ..).symm, .unit derived more⟩

end Sound

/-! ### Whatever is derived is read -/

/-- The characters that may stand after a term. -/
def followers : List Char := [' ', '\t', '*', '·', '⋅', '/', ')']

/-- What may follow a term: the end of the text, spacing, a separator or the end of a group. -/
def Follows (rest : List Char) : Prop := ∀ c ∈ rest.head?, c ∈ followers

/-- What may follow an expression: nothing that would continue it. -/
def Ends (rest : List Char) : Prop := Follows rest ∧ separator? (dropSpacing rest) = none

/-- What holds of each of the characters holds of the next one. -/
theorem Follows.head {P : Char → Prop} (follows : Follows rest)
    (each : ∀ i : Fin followers.length, P (followers.get i)) : ∀ c ∈ rest.head?, P c := by
  intro c member
  obtain ⟨i, rfl⟩ := List.get_of_mem (follows c member)
  exact each i

theorem follows_cons {c : Char} (follower : c ∈ followers) (rest : List Char) :
    Follows (c :: rest) := by
  intro d member
  obtain rfl : c = d := Option.some.inj member
  exact follower

theorem ends_nil : Ends [] := ⟨by simp [Follows], rfl⟩

theorem mem_of_isSpacing {c : Char} (spacing : isSpacing c = true) : c = ' ' ∨ c = '\t' := by
  simpa [isSpacing] using spacing

theorem follows_spacing {spaces : List Char} (spacing : Spacing spaces) (follows : Follows rest) :
    Follows (spaces ++ rest) := by
  cases spaces with
  | nil => exact follows
  | cons c spaces =>
    apply follows_cons
    rcases mem_of_isSpacing (spacing c (by simp)) with rfl | rfl <;> simp [followers]

theorem dropSpacing_spacing {spaces : List Char} (spacing : Spacing spaces)
    (stops : ∀ c ∈ rest.head?, isSpacing c = false) : dropSpacing (spaces ++ rest) = rest :=
  (span_append spacing stops).2

theorem ends_group {after : List Char} (spacing : Spacing after) (rest : List Char) :
    Ends (after ++ ')' :: rest) := by
  constructor
  · exact follows_spacing spacing (follows_cons (by simp [followers]) rest)
  · rw [dropSpacing_spacing spacing (by simp [isSpacing])]
    rfl

theorem Separates.follows {c : Char} {separator : Separator} (separates : Separates c separator)
    (rest : List Char) : Follows (c :: rest) := by
  apply follows_cons
  cases separates <;> simp [followers]

theorem Separates.not_spacing {c : Char} {separator : Separator} (separates : Separates c separator) :
    isSpacing c = false := by
  cases separates <;> rfl

theorem Separates.separator? {c : Char} {separator : Separator} (separates : Separates c separator)
    (rest : List Char) : Parse.separator? (c :: rest) = some (separator, rest) := by
  cases separates <;> rfl

/-- The text of a phrase begins with a character of its own, unless it only continues another. -/
def Starts : Phrase → List Char → Prop
  | .further _, _ => True
  | _, text => ∃ c others, text = c :: others ∧ isSpacing c = false

theorem Starts.append {first : List Char} (starts : ∃ c others, first = c :: others ∧ isSpacing c = false)
    (rest : List Char) : ∃ c others, first ++ rest = c :: others ∧ isSpacing c = false := by
  obtain ⟨c, others, rfl, notSpacing⟩ := starts
  exact ⟨c, others ++ rest, rfl, notSpacing⟩

theorem Derives.starts (derived : Derives phrase text e) : Starts phrase text := by
  induction derived with
  | unit _ _ first _ => exact Starts.append first _
  | last => trivial
  | next => trivial
  | plain _ first => exact first
  | raised _ _ _ first => exact Starts.append first _
  | one => exact ⟨'1', [], rfl, by decide⟩
  | @symbol name symbolic =>
    obtain ⟨c, others, rfl⟩ := List.exists_cons_of_ne_nil symbolic.1
    refine ⟨c, others, rfl, ?_⟩
    have symbolChar := List.all_eq_true.mp symbolic.2 c (by simp)
    -- A space would be blank, and no symbol has a blank in it.
    by_contra spacing
    have blank := isBlank_of_isSpacing (Bool.not_eq_false _ ▸ spacing)
    simp [isSymbolChar, blank] at symbolChar
  | group => exact ⟨'(', _, rfl, by decide⟩

/-- Spaces before a phrase are skipped, and the phrase is not. -/
theorem dropSpacing_phrase {spaces : List Char} (spacing : Spacing spaces)
    (starts : ∃ c others, text = c :: others ∧ isSpacing c = false) (rest : List Char) :
    dropSpacing (spaces ++ (text ++ rest)) = text ++ rest := by
  obtain ⟨c, others, rfl, notSpacing⟩ := starts
  apply dropSpacing_spacing spacing
  intro d member
  exact Option.some.inj member ▸ notSpacing

theorem Derives.follows_further (more : Derives (.further left) text e) (ends : Follows rest) :
    Follows (text ++ rest) := by
  cases more with
  | last => exact ends
  | next spacing separates =>
    rw [List.append_assoc, List.cons_append]
    exact follows_spacing spacing (separates.follows _)

theorem Power.power? {power : Int} (raised : Power read power) (follows : Follows rest) :
    Parse.power? (read ++ rest) = some (power, rest) := by
  cases raised with
  | hat signed =>
    have digits : ∀ c ∈ rest.head?, (digitValue? c).isSome = false := follows.head (by decide)
    exact signed.signedDigits? (by decide) (by decide) (by decide) digits
  | raised signed =>
    have digits : ∀ c ∈ rest.head?, (value? c).isSome = false := follows.head (by decide)
    have read := signed.signedDigits? (by decide) (by decide) (by decide) digits
    obtain ⟨c, others, rfl, first⟩ := signed.head
    -- Neither a raised sign nor a raised digit is a hat.
    have noHat : c ≠ '^' := by
      rintro rfl
      revert first
      decide
    simpa [Parse.power?, noHat] using read

theorem power?_follows (follows : Follows rest) : power? rest = none :=
  power?_eq_none (follows.head (by decide))

/-- What the readers make of a phrase wherever it stands, if groups may nest as deep as its text is
long: they read all of it and nothing else. -/
def ReadBy (phrase : Phrase) (text : List Char) (e : Expr String) : Prop :=
  ∀ depth, text.length ≤ depth → ∀ rest,
    match phrase with
    | .unit => Ends rest → unitWithin (depth + 1) (text ++ rest) = .ok (e, rest)
    | .further left => Ends rest → ∀ more, text.length ≤ more →
      continued (unitWithin depth) more left (text ++ rest) = (e, rest)
    | .term => Follows rest → term (unitWithin depth) (text ++ rest) = .ok (e, rest)
    | .factor => (∀ c ∈ rest.head?, isSymbolChar c = false) →
      factor (unitWithin depth) (text ++ rest) = .ok (e, rest)

theorem readBy_unit {first tail : List Char} (term : ReadBy .term first left)
    (more : Derives (.further left) tail e) (further : ReadBy (.further left) tail e) :
    ReadBy .unit (first ++ tail) e := by
  intro depth deep rest ends
  simp only [List.length_append] at deep
  have begun := term depth (by omega) (tail ++ rest) (more.follows_further ends.1)
  have continues := further depth (by omega) rest ends (tail ++ rest).length (by simp)
  rw [List.append_assoc, unitWithin, begun]
  simp only [continues]

theorem readBy_next {before after piece tail : List Char} {c : Char} {separator : Separator}
    {right : Expr String} (spacing : Spacing before) (separates : Separates c separator)
    (spacingAfter : Spacing after) (derived : Derives .term piece right)
    (more : Derives (.further (separator.join left right)) tail e) (term : ReadBy .term piece right)
    (further : ReadBy (.further (separator.join left right)) tail e) :
    ReadBy (.further left) (before ++ c :: (after ++ (piece ++ tail))) e := by
  intro depth deep rest ends steps enough
  simp only [List.length_append, List.length_cons] at deep enough
  -- One of the terms that may still come is this one.
  obtain ⟨fewer, rfl⟩ : ∃ fewer, steps = fewer + 1 := ⟨steps - 1, by omega⟩
  have whole : before ++ c :: (after ++ (piece ++ tail)) ++ rest =
      before ++ c :: (after ++ (piece ++ (tail ++ rest))) := by simp
  have joins : dropSpacing (before ++ c :: (after ++ (piece ++ (tail ++ rest)))) =
      c :: (after ++ (piece ++ (tail ++ rest))) :=
    dropSpacing_spacing spacing fun d member => Option.some.inj member ▸ separates.not_spacing
  have begins := dropSpacing_phrase spacingAfter derived.starts (tail ++ rest)
  have next := term depth (by omega) (tail ++ rest) (more.follows_further ends.1)
  have continues := further depth (by omega) rest ends fewer (by omega)
  rw [whole, continued, joins, separates.separator?]
  simp only [begins, next, continues]

theorem readBy_raised {power : List Char} {n : Int} {base : Expr String}
    (factor : ReadBy .factor text base) (exponent : Power power n) (defined : base.powi? n = some e) :
    ReadBy .term (text ++ power) e := by
  intro depth deep rest follows
  simp only [List.length_append] at deep
  have stops : ∀ c ∈ (power ++ rest).head?, isSymbolChar c = false := by
    obtain ⟨c, others, rfl, noSymbol⟩ := exponent.head
    exact fun d member => Option.some.inj member ▸ noSymbol
  have read := factor depth (by omega) (power ++ rest) stops
  rw [List.append_assoc, Parse.term, read]
  simp only [exponent.power? follows, defined]

theorem readBy_group {before after : List Char} (spacing : Spacing before)
    (derived : Derives .unit text e) (inner : ReadBy .unit text e) (spacingAfter : Spacing after) :
    ReadBy .factor ('(' :: (before ++ (text ++ (after ++ [')'])))) e := by
  intro depth deep rest _
  simp only [List.length_cons, List.length_append] at deep
  -- The parentheses leave room for one level of nesting.
  obtain ⟨shallower, rfl⟩ : ∃ shallower, depth = shallower + 1 := ⟨depth - 1, by omega⟩
  have whole : '(' :: (before ++ (text ++ (after ++ [')']))) ++ rest =
      '(' :: (before ++ (text ++ (after ++ ')' :: rest))) := by simp
  have begins := dropSpacing_phrase spacing derived.starts (after ++ ')' :: rest)
  have within := inner shallower (by omega) (after ++ ')' :: rest) (ends_group spacingAfter rest)
  have closes : dropSpacing (after ++ ')' :: rest) = ')' :: rest :=
    dropSpacing_spacing spacingAfter (by simp [isSpacing])
  rw [whole, factor, begins, within]
  simp only [closes]

/-- Whatever is derived is read, to its end and no further. -/
theorem Derives.reads (derived : Derives phrase text e) : ReadBy phrase text e := by
  induction derived with
  | unit _ more first further => exact readBy_unit first more further
  | last e =>
    intro depth _ rest ends more _
    exact continued_of_separator?_eq_none more ends.2
  | next spacing separates spacingAfter term more first further =>
    exact readBy_next spacing separates spacingAfter term more first further
  | plain _ factor =>
    intro depth deep rest follows
    have read := factor depth deep rest (follows.head (by decide))
    simp only [term, read, power?_follows follows]
  | raised _ exponent defined factor => exact readBy_raised factor exponent defined
  | one =>
    intro depth _ rest _
    rfl
  | symbol symbolic =>
    intro depth _ rest stops
    exact factor_symbol _ symbolic stops
  | group spacing inside spacingAfter inner => exact readBy_group spacing inside inner spacingAfter

/-! ### Single terms -/

theorem derives_atom {a : String} (symbolic : IsSymbol a.toList) : Derives .factor a.toList (.atom a) := by
  have symbol := Derives.symbol symbolic
  rwa [String.ofList_toList] at symbol

theorem Derives.unit_of_term (term : Derives .term text e) : Derives .unit text e := by
  have alone := Derives.unit term (.last e)
  rwa [List.append_nil] at alone

/-! ### Whole texts -/

theorem complete_eq_ok_iff {β : Type} {outcome : Outcome β} {meaning : β} :
    complete outcome = .ok meaning ↔ outcome = .ok (meaning, []) := by
  unfold complete
  split <;> simp_all

theorem exists_reason_of_complete {β : Type} {outcome : Outcome β} {error : UnitError}
    (failed : complete outcome = .error error) : ∃ reason, error = .malformed reason := by
  unfold complete at failed
  split at failed
  · cases failed
  · exact ⟨_, (Except.error.inj failed).symm⟩
  · exact ⟨_, (Except.error.inj failed).symm⟩

theorem unitExpr_eq_ok_iff : unitExpr text = .ok (e, []) ↔ Derives .unit text e := by
  constructor
  · intro found
    obtain ⟨read, split, derived⟩ := derives_of_unitWithin _ _ _ _ found
    rwa [split, List.append_nil]
  · intro derived
    have read := derived.reads text.length (Nat.le_refl _) [] ends_nil
    rwa [List.append_nil] at read

theorem unit_eq_ok_iff {text : String} : unit text = .ok e ↔ Denotes text e := by
  unfold unit Denotes
  split
  next blank =>
    -- No expression is empty.
    have none : ¬ Derives .unit [] e := fun derived => by
      obtain ⟨c, others, empty, -⟩ := derived.starts
      cases empty
    simp [blank, none, eq_comm]
  next trimmed some =>
    rw [complete_eq_ok_iff, unitExpr_eq_ok_iff]
    exact (or_iff_right fun blank => some blank.1).symm

theorem exists_reason_of_unit {text : String} {error : UnitError} (failed : unit text = .error error) :
    ∃ reason, error = .malformed reason := by
  unfold unit at failed
  split at failed
  · cases failed
  · exact exists_reason_of_complete failed

/-- A text is accepted just if it is blank or an expression of the grammar, with the meaning that
the grammar gives to it; every other text is malformed. -/
theorem unit_accepts_grammar (text : String) :
    (∀ e, unit text = .ok e ↔ Denotes text e) ∧
      ((∃ reason, unit text = .error (.malformed reason)) ↔ ∀ e, ¬ Denotes text e) := by
  refine ⟨fun e => unit_eq_ok_iff, ?_⟩
  constructor
  · rintro ⟨reason, failed⟩ e denotes
    rw [unit_eq_ok_iff.mpr denotes] at failed
    cases failed
  · intro none
    cases outcome : unit text with
    | ok e => exact absurd (unit_eq_ok_iff.mp outcome) (none e)
    | error error =>
      obtain ⟨reason, rfl⟩ := exists_reason_of_unit outcome
      exact ⟨reason, rfl⟩

example : unit " kg*m/(s · s)^2 " =
    .ok (.frac (.mul [.atom "kg", .atom "m"]) (.mul [.atom "s", .atom "s", .atom "s", .atom "s"])) := by
  decide +kernel

end Metrology.Parse
