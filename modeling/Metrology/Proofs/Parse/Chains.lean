import Metrology.Proofs.Parse.Terms

/-!
# Reading a written expression back

An expression is written as a term followed by further terms, each behind its separator, and a
group is an expression in parentheses that stands for a term. If every term reads back, so does the
expression; if one term refuses to, reading stops there, and what is left over is neither the end
of the text nor the end of a group. The two halves climb from terms to expressions and from
expressions to the groups that contain them in the same steps.
-/
namespace Metrology.Parse

/-! ### Parts -/

def Separator.char : Separator → Char
  | times => '·'
  | per => '/'

/-- A term where it stands: what joins it to the terms before it, its text and its meaning. -/
structure Part where
  separator : Separator
  piece : List Char
  tree : Expr String

def Part.chars (part : Part) : List Char := part.separator.char :: part.piece

/-- The text of further terms. -/
def written (parts : List Part) : List Char := parts.flatMap Part.chars

/-- An expression with further terms joined to it. -/
def joined (first : Expr String) (parts : List Part) : Expr String :=
  parts.foldl (fun e part => part.separator.join e part.tree) first

/-- The text, wherever it stands, reads as one term with a meaning. -/
structure Reads (inside : List Char → Outcome (Expr String)) (piece : List Char)
    (tree : Expr String) : Prop where
  dense : ∀ c ∈ piece, isBlank c = false
  reads : ∀ rest, Boundary rest → term inside (piece ++ rest) = .ok (tree, rest)

/-- No reader of terms gets past the text. -/
structure Refuses (inside : List Char → Outcome (Expr String)) (piece : List Char) : Prop where
  dense : ∀ c ∈ piece, isBlank c = false
  stuck : ∀ rest, Boundary rest → ∀ e left, term inside (piece ++ rest) = .ok (e, left) → Stuck left

theorem Reads.not_refuses {inside : List Char → Outcome (Expr String)} {piece : List Char}
    {tree : Expr String} (reads : Reads inside piece tree) : ¬ Refuses inside piece := fun refuses =>
  refuses.stuck [] trivial tree [] (reads.reads [] trivial)

/-- Something is left that ends neither an expression nor a group. -/
def Leftover : List Char → Prop
  | [] => False
  | c :: _ => isSpacing c = false ∧ c ≠ ')'

/-- The end of an expression: of the text or of a group. -/
def Closing : List Char → Prop
  | [] => True
  | c :: _ => c = ')'

variable {inside : List Char → Outcome (Expr String)} {piece rest left : List Char}
  {tree e : Expr String} {parts : List Part}

theorem Closing.boundary (closing : Closing rest) : Boundary rest := by
  cases rest with
  | nil => trivial
  | cons c rest => exact .inr (.inr closing)

theorem dropSpacing_eq_self (stops : ∀ c ∈ rest.head?, isSpacing c = false) :
    dropSpacing rest = rest := by
  cases rest with
  | nil => rfl
  | cons c rest => simp [dropSpacing, stops c rfl]

theorem isSpacing_eq_false {c : Char} (dense : isBlank c = false) : isSpacing c = false := by
  rw [← Bool.not_eq_true] at dense ⊢
  exact fun spacing => dense (isBlank_of_isSpacing spacing)

theorem dropSpacing_append (dense : ∀ c ∈ piece, isBlank c = false) (boundary : Boundary rest) :
    dropSpacing (piece ++ rest) = piece ++ rest := by
  refine dropSpacing_eq_self ?_
  cases piece with
  | nil => exact boundary.head (by decide)
  | cons c piece =>
    intro d member
    obtain rfl : c = d := Option.some.inj member
    exact isSpacing_eq_false (dense c (by simp))

theorem Leftover.dropSpacing (leftover : Leftover left) : dropSpacing left = left := by
  cases left with
  | nil => rfl
  | cons c left =>
    refine dropSpacing_eq_self fun d member => ?_
    obtain rfl : c = d := Option.some.inj member
    exact leftover.1

theorem continued_of_separator?_eq_none (more : Nat)
    (ends : separator? (dropSpacing rest) = none) : continued inside more e rest = (e, rest) := by
  cases more with
  | zero => rfl
  | succ more => rw [continued, ends]

/-- A digit neither joins nor ends anything. -/
theorem Stuck.leftover (stuck : Stuck left) : Leftover left ∧ separator? left = none := by
  cases left with
  | nil => exact stuck.elim
  | cons c left =>
    have other := stuck.head (P := fun c => isSpacing c = false ∧ c ≠ ')' ∧ c ≠ '*' ∧ c ≠ '·' ∧
      c ≠ '⋅' ∧ c ≠ '/') (by decide) (by decide)
    obtain ⟨noSpacing, noClose, noStar, noDot, noOperator, noBar⟩ := other
    exact ⟨⟨noSpacing, noClose⟩, by simp [separator?, noStar, noDot, noOperator, noBar]⟩

theorem Stuck.continued (stuck : Stuck left) (more : Nat) :
    continued inside more e left = (e, left) := by
  refine continued_of_separator?_eq_none more ?_
  rw [stuck.leftover.1.dropSpacing]
  exact stuck.leftover.2

theorem boundary_written (parts : List Part) (boundary : Boundary rest) : Boundary (written parts ++ rest) := by
  cases parts with
  | nil => exact boundary
  | cons part parts =>
    change Boundary (part.separator.char :: _)
    cases part.separator with
    | times => exact .inl rfl
    | per => exact .inr (.inl rfl)

/-! ### Further terms -/

theorem continued_cons (more : Nat) {part : Part} (dense : ∀ c ∈ part.piece, isBlank c = false)
    (boundary : Boundary rest) :
    continued inside (more + 1) e (part.chars ++ rest) =
      match term inside (part.piece ++ rest) with
      | .error _ => (e, part.chars ++ rest)
      | .ok (next, left) => continued inside more (part.separator.join e next) left := by
  have spaced := dropSpacing_append dense boundary
  have found : separator? (Metrology.dropSpacing (part.chars ++ rest)) =
      some (part.separator, part.piece ++ rest) := by
    unfold Part.chars
    cases part.separator <;> rfl
  cases outcome : term inside (part.piece ++ rest) with
  | error fault => simp [continued, found, spaced, outcome]
  | ok result => simp [continued, found, spaced, outcome]

/-- Terms that read back are read up to the end of the expression. -/
theorem continued_of_reads (all : ∀ part ∈ parts, Reads inside part.piece part.tree)
    (closing : Closing rest) {more : Nat} (enough : parts.length ≤ more) :
    continued inside more e (written parts ++ rest) = (joined e parts, rest) := by
  induction parts generalizing e more with
  | nil =>
    refine continued_of_separator?_eq_none more ?_
    cases rest with
    | nil => rfl
    | cons c rest =>
      obtain rfl : c = ')' := closing
      rfl
  | cons part parts ih =>
    -- One of the terms that may still come is used up for the first part.
    obtain ⟨fewer, rfl⟩ : ∃ fewer, more = fewer + 1 := ⟨more - 1, by simp at enough; omega⟩
    have first := all part (by simp)
    have boundary := boundary_written parts closing.boundary
    have split : written (part :: parts) ++ rest = part.chars ++ (written parts ++ rest) := by
      simp [written]
    rw [split, continued_cons fewer first.dense boundary, first.reads _ boundary]
    exact ih (fun other member => all other (by simp [member])) (by simpa using enough)

/-- A term that refuses to be read leaves something over. -/
theorem leftover_of_refuses
    (each : ∀ part ∈ parts, Reads inside part.piece part.tree ∨ Refuses inside part.piece)
    (some : ∃ part ∈ parts, Refuses inside part.piece) (boundary : Boundary rest) (more : Nat) :
    Leftover (continued inside more e (written parts ++ rest)).2 := by
  induction parts generalizing e more with
  | nil =>
    obtain ⟨part, member, -⟩ := some
    cases member
  | cons part parts ih =>
    have later := boundary_written parts boundary
    have split : written (part :: parts) ++ rest = part.chars ++ (written parts ++ rest) := by
      simp [written]
    -- If the reader stops here, the separator is left over.
    have unread : Leftover (part.chars ++ (written parts ++ rest)) := by
      change Leftover (part.separator.char :: _)
      cases part.separator <;> exact ⟨rfl, by decide⟩
    rw [split]
    cases more with
    | zero => exact unread
    | succ more =>
      rcases each part (by simp) with reads | refuses
      · -- The first part is read, and the refusing one comes later.
        rw [continued_cons more reads.dense later, reads.reads _ later]
        obtain ⟨refusing, member, refuses⟩ := some
        rcases List.mem_cons.mp member with rfl | deeper
        · exact absurd refuses reads.not_refuses
        · exact ih (fun other member => each other (by simp [member])) ⟨refusing, deeper, refuses⟩ more
      · rw [continued_cons more refuses.dense later]
        cases outcome : term inside (part.piece ++ (written parts ++ rest)) with
        | error fault => exact unread
        | ok result =>
          -- Some of it was read, but nothing can be joined to it.
          have stuck := refuses.stuck _ later result.1 result.2 outcome
          simp only [stuck.continued]
          exact stuck.leftover.1

/-! ### Expressions and groups -/

/-- Each of the texts is a term or refuses to be one. -/
def Settled (inside : List Char → Outcome (Expr String)) (piece : List Char) (tree : Expr String)
    (parts : List Part) : Prop :=
  (Reads inside piece tree ∨ Refuses inside piece) ∧
    ∀ part ∈ parts, Reads inside part.piece part.tree ∨ Refuses inside part.piece

variable {depth : Nat}

theorem dense_expression (first : ∀ c ∈ piece, isBlank c = false)
    (all : ∀ part ∈ parts, ∀ c ∈ part.piece, isBlank c = false) :
    ∀ c ∈ piece ++ written parts, isBlank c = false := by
  intro c member
  rcases List.mem_append.mp member with inFirst | later
  · exact first c inFirst
  · obtain ⟨part, present, inPart⟩ := List.mem_flatMap.mp later
    rcases List.mem_cons.mp inPart with rfl | inPiece
    · cases part.separator <;> decide
    · exact all part present c inPiece

theorem Settled.dense (settled : Settled inside piece tree parts) :
    ∀ c ∈ piece ++ written parts, isBlank c = false :=
  dense_expression (settled.1.elim (·.dense) (·.dense)) fun part present =>
    (settled.2 part present).elim (·.dense) (·.dense)

theorem length_le_written (parts : List Part) : parts.length ≤ (written parts).length := by
  induction parts with
  | nil => exact Nat.le_refl 0
  | cons part parts ih =>
    have split : written (part :: parts) = part.chars ++ written parts := by simp [written]
    simp only [split, Part.chars, List.length_append, List.length_cons]
    omega

/-- An expression reads back if its terms do. -/
theorem unitWithin_of_reads (first : Reads (unitWithin depth) piece tree)
    (all : ∀ part ∈ parts, Reads (unitWithin depth) part.piece part.tree) (closing : Closing rest) :
    unitWithin (depth + 1) (piece ++ written parts ++ rest) = .ok (joined tree parts, rest) := by
  have boundary := boundary_written parts closing.boundary
  have enough : parts.length ≤ (written parts ++ rest).length := by
    rw [List.length_append]
    exact Nat.le_add_right_of_le (length_le_written parts)
  rw [List.append_assoc, unitWithin, first.reads _ boundary]
  simp only [continued_of_reads all closing enough]

/-- An expression with a term that refuses to be read is not read to its end. -/
theorem leftover_of_unitWithin (settled : Settled (unitWithin depth) piece tree parts)
    (some : Refuses (unitWithin depth) piece ∨
      ∃ part ∈ parts, Refuses (unitWithin depth) part.piece) (boundary : Boundary rest)
    (read : unitWithin (depth + 1) (piece ++ written parts ++ rest) = .ok (e, left)) :
    Leftover left := by
  have later := boundary_written parts boundary
  rw [List.append_assoc, unitWithin] at read
  rcases settled.1 with reads | refuses
  · rw [reads.reads _ later] at read
    simp only [Except.ok.injEq] at read
    have refusing := some.resolve_left reads.not_refuses
    have leftover := leftover_of_refuses (e := tree) settled.2 refusing boundary
      (written parts ++ rest).length
    rw [read] at leftover
    exact leftover
  · cases outcome : term (unitWithin depth) (piece ++ (written parts ++ rest)) with
    | error fault => simp [outcome] at read
    | ok result =>
      have stuck := refuses.stuck _ later result.1 result.2 outcome
      simp only [outcome, stuck.continued, Except.ok.injEq, Prod.mk.injEq] at read
      exact read.2 ▸ stuck.leftover.1

/-- The text of an expression in parentheses. -/
def grouped (text : List Char) : List Char := '(' :: (text ++ [')'])

theorem dense_grouped {text : List Char} (dense : ∀ c ∈ text, isBlank c = false) :
    ∀ c ∈ grouped text, isBlank c = false := by
  intro c member
  rcases List.mem_cons.mp member with rfl | later
  · decide
  · rcases List.mem_append.mp later with inText | close
    · exact dense c inText
    · obtain rfl := List.mem_singleton.mp close
      decide

theorem factor_grouped {text : List Char} (dense : ∀ c ∈ text, isBlank c = false)
    (read : inside (text ++ ')' :: rest) = .ok (e, ')' :: rest)) :
    factor inside (grouped text ++ rest) = .ok (e, rest) := by
  have closing : Closing (')' :: rest) := rfl
  have whole : grouped text ++ rest = '(' :: (text ++ ')' :: rest) := by simp [grouped]
  rw [whole, factor, dropSpacing_append dense closing.boundary, read]
  rfl

/-- What is read in the parentheses has to end at the closing one. -/
theorem factor_grouped_of_leftover {text : List Char} (dense : ∀ c ∈ text, isBlank c = false)
    (read : ∀ e left, inside (text ++ ')' :: rest) = .ok (e, left) → Leftover left) :
    ∃ fault, factor inside (grouped text ++ rest) = .error fault := by
  have closing : Closing (')' :: rest) := rfl
  have whole : grouped text ++ rest = '(' :: (text ++ ')' :: rest) := by simp [grouped]
  rw [whole, factor, dropSpacing_append dense closing.boundary]
  cases outcome : inside (text ++ ')' :: rest) with
  | error fault => exact ⟨_, rfl⟩
  | ok result =>
    have leftover := read result.1 result.2 outcome
    simp only [leftover.dropSpacing]
    split
    next closed =>
      rw [closed] at leftover
      exact absurd rfl leftover.2
    next => exact ⟨_, rfl⟩

theorem reads_group (first : Reads (unitWithin depth) piece tree)
    (all : ∀ part ∈ parts, Reads (unitWithin depth) part.piece part.tree) :
    Reads (unitWithin (depth + 1)) (grouped (piece ++ written parts)) (joined tree parts) := by
  have dense := dense_expression first.dense fun part present => (all part present).dense
  refine ⟨dense_grouped dense, fun rest boundary => ?_⟩
  have closing : Closing (')' :: rest) := rfl
  have group := factor_grouped dense (unitWithin_of_reads first all closing)
  simp only [term, group, power?_boundary boundary]

theorem refuses_group (settled : Settled (unitWithin depth) piece tree parts)
    (some : Refuses (unitWithin depth) piece ∨
      ∃ part ∈ parts, Refuses (unitWithin depth) part.piece) :
    Refuses (unitWithin (depth + 1)) (grouped (piece ++ written parts)) := by
  refine ⟨dense_grouped settled.dense, fun rest boundary e left read => ?_⟩
  have closing : Closing (')' :: rest) := rfl
  obtain ⟨fault, fails⟩ := factor_grouped_of_leftover settled.dense fun _ _ outcome =>
    leftover_of_unitWithin settled some closing.boundary outcome
  -- Without a factor there is no term, so nothing was read.
  simp [term, fails] at read

/-! ### Whole texts -/

theorem trimBlanks_eq_self {text : List Char} (dense : ∀ c ∈ text, isBlank c = false) :
    trimBlanks text = text := by
  have same : ∀ row : List Char, (∀ c ∈ row, isBlank c = false) → row.dropWhile isBlank = row := by
    intro row dense
    cases row with
    | nil => rfl
    | cons c row => simp [dense c (by simp)]
  rw [trimBlanks, same text dense, same text.reverse fun c member => dense c (List.mem_reverse.mp member),
    List.reverse_reverse]

theorem unit_eq_complete {text : String} (some : text.toList ≠ [])
    (dense : ∀ c ∈ text.toList, isBlank c = false) :
    unit text = complete (unitExpr text.toList) := by
  rw [unit, trimBlanks_eq_self dense]
  split
  next empty => exact absurd empty some
  next => rfl

theorem unit_of_reads {text : String} (spelled : text.toList = piece ++ written parts)
    (some : text.toList ≠ []) (first : Reads (unitWithin text.toList.length) piece tree)
    (all : ∀ part ∈ parts, Reads (unitWithin text.toList.length) part.piece part.tree) :
    unit text = .ok (joined tree parts) := by
  have dense := dense_expression first.dense fun part present => (all part present).dense
  have read : unitWithin (text.toList.length + 1) (piece ++ written parts ++ []) =
      .ok (joined tree parts, []) := unitWithin_of_reads first all trivial
  rw [List.append_nil, ← spelled] at read
  rw [unit_eq_complete some (spelled ▸ dense), unitExpr, read]
  rfl

theorem unit_of_refuses {text : String} (spelled : text.toList = piece ++ written parts)
    (some : text.toList ≠ []) (settled : Settled (unitWithin text.toList.length) piece tree parts)
    (refusing : Refuses (unitWithin text.toList.length) piece ∨
      ∃ part ∈ parts, Refuses (unitWithin text.toList.length) part.piece) :
    ∃ reason, unit text = .error (.malformed reason) := by
  rw [unit_eq_complete some (spelled ▸ settled.dense), unitExpr]
  cases outcome : unitWithin (text.toList.length + 1) text.toList with
  | error fault => exact ⟨_, rfl⟩
  | ok result =>
    obtain ⟨e, left⟩ := result
    have read : unitWithin (text.toList.length + 1) (piece ++ written parts ++ []) =
        .ok (e, left) := by rw [List.append_nil, ← spelled, outcome]
    have ends : Boundary [] := trivial
    have leftover := leftover_of_unitWithin settled refusing ends read
    cases left with
    | nil => exact leftover.elim
    | cons c left => exact ⟨_, rfl⟩

end Metrology.Parse
