import Metrology.Proofs.Parse.Layout

/-!
# Different composites have different texts

A text is taken apart from the left. A name ends where no symbol character follows, its exponent where
no raised digit does, and neither a separator nor a parenthesis is one of these; the digit one and the
parenthesis that may stand in place of a name are no symbol characters either. So two rows of factors
that begin alike are the same row followed by the same rest (`written_unique`), and from the numerator
one gets to the bar and to the denominator. Unlike reading back, this works for exponents of any size.
-/
namespace Metrology.Parse

open Std Superscript

/-! ### Where names and exponents end -/

/-- Two texts that are the same are divided at the same place by where a row of characters of one kind
ends. -/
theorem span_unique {p : Char → Bool} {first second rest others : List Char}
    (all : ∀ c ∈ first, p c = true) (every : ∀ c ∈ second, p c = true)
    (stops : ∀ c ∈ rest.head?, p c = false) (ends : ∀ c ∈ others.head?, p c = false)
    (same : first ++ rest = second ++ others) : first = second ∧ rest = others := by
  obtain ⟨taken, left⟩ := span_append all stops
  obtain ⟨takenToo, leftToo⟩ := span_append every ends
  rw [same] at taken left
  exact ⟨taken.symm.trans takenToo, left.symm.trans leftToo⟩

theorem row_injective {m n : Nat} (same : row m = row n) : m = n := by
  rw [← foldl_values_row m, same, foldl_values_row]

theorem toList_ofNat_injective {m n : Nat} (same : (ofNat m).toList = (ofNat n).toList) :
    m = n := by
  rw [toList_ofNat, toList_ofNat] at same
  by_cases one : m = 1
  · by_cases oneToo : n = 1
    · exact one.trans oneToo.symm
    · rw [if_pos one, if_neg oneToo] at same
      exact absurd same.symm (row_ne_nil n)
  · by_cases oneToo : n = 1
    · rw [if_neg one, if_pos oneToo] at same
      exact absurd same (row_ne_nil m)
    · rw [if_neg one, if_neg oneToo] at same
      exact row_injective same

theorem raised_of_mem_ofNat {n : Nat} {c : Char} (member : c ∈ (ofNat n).toList) :
    (value? c).isSome = true := by
  rw [toList_ofNat] at member
  split at member
  · cases member
  · exact value?_of_mem_row member

/-- No name goes on with an exponent or with what follows it. -/
theorem isSymbolChar_after_name (n : Nat) {rest : List Char} (boundary : Boundary rest) :
    ∀ c ∈ ((ofNat n).toList ++ rest).head?, isSymbolChar c = false := by
  rw [toList_ofNat]
  split
  · exact isSymbolChar_boundary boundary
  · exact isSymbolChar_of_stuck (stuck_row n rest)

/-- A name with an exponent is followed by something else. -/
theorem power_unique {first second rest others : List Char} {m n : Nat}
    (symbolic : IsSymbol first) (symbolicToo : IsSymbol second) (boundary : Boundary rest)
    (boundaryToo : Boundary others)
    (same : first ++ (ofNat m).toList ++ rest = second ++ (ofNat n).toList ++ others) :
    first = second ∧ m = n ∧ rest = others := by
  rw [List.append_assoc, List.append_assoc] at same
  -- First the name is taken off, then the exponent.
  obtain ⟨name, behind⟩ := span_unique (List.all_eq_true.mp symbolic.2)
    (List.all_eq_true.mp symbolicToo.2) (isSymbolChar_after_name m boundary)
    (isSymbolChar_after_name n boundaryToo) same
  obtain ⟨exponent, after⟩ := span_unique (p := fun c => (value? c).isSome)
    (fun _ => raised_of_mem_ofNat) (fun _ => raised_of_mem_ofNat)
    (boundary.head (by decide)) (boundaryToo.head (by decide)) behind
  exact ⟨name, toList_ofNat_injective exponent, after⟩

/-! ### Rows of factors -/

variable {α : Type} {name : α → String}

/-- What may follow a row of factors: nothing, the bar or the end of a group. -/
def RowEnd : List Char → Prop
  | [] => True
  | c :: _ => c = '/' ∨ c = ')'

theorem RowEnd.boundary {rest : List Char} (ends : RowEnd rest) : Boundary rest := by
  cases rest with
  | nil => trivial
  | cons c rest => exact .inr ends

theorem RowEnd.head_ne {rest : List Char} (ends : RowEnd rest) : rest.head? ≠ some '·' := by
  cases rest with
  | nil => simp
  | cons c rest => rcases ends with rfl | rfl <;> simp

/-- The entries are written with names. -/
def Named (name : α → String) (entries : List (α × Int)) : Prop :=
  ∀ entry ∈ entries, IsSymbol (name entry.1).toList

/-- Entries that are written in the same way are the same. -/
def Apart (name : α → String) (xs ys : List (α × Int)) : Prop :=
  ∀ x ∈ xs, ∀ y ∈ ys, name x.1 = name y.1 → x.2.natAbs = y.2.natAbs → x = y

theorem Named.mono {xs ys : List (α × Int)} (named : Named name ys) (part : xs ⊆ ys) :
    Named name xs := fun entry member => named entry (part member)

/-- On one side of the bar a count is known by its magnitude, so that names tell entries apart if they
tell atoms apart. -/
theorem apart_filter (side : Int → Bool) {xs ys : List (α × Int)}
    (differ : ∀ x ∈ xs, ∀ y ∈ ys, name x.1 = name y.1 → x.1 = y.1)
    (sign : ∀ m n, side m = true → side n = true → m.sign = n.sign) :
    Apart name (xs.filter fun entry => side entry.2) (ys.filter fun entry => side entry.2) := by
  intro x inXs y inYs sameName sameMagnitude
  obtain ⟨member, onSide⟩ := List.mem_filter.mp inXs
  obtain ⟨memberToo, onSideToo⟩ := List.mem_filter.mp inYs
  refine Prod.ext (differ x member y memberToo sameName) ?_
  rw [← Int.sign_mul_natAbs x.2, ← Int.sign_mul_natAbs y.2, sign _ _ onSide onSideToo,
    sameMagnitude]

/-- One text is not the beginning of two rows of factors. -/
theorem written_unique {xs ys : List (α × Int)} {rest others : List Char} (named : Named name xs)
    (namedToo : Named name ys) (apart : Apart name xs ys) (ends : RowEnd rest)
    (endsToo : RowEnd others)
    (same : written (xs.map (powerPart name .times)) ++ rest =
      written (ys.map (powerPart name .times)) ++ others) : xs = ys ∧ rest = others := by
  induction xs generalizing ys with
  | nil =>
    cases ys with
    | nil => exact ⟨rfl, same⟩
    | cons y ys =>
      -- A row that goes on does so with a dot.
      refine absurd ?_ ends.head_ne
      exact congrArg List.head? same
  | cons x xs ih =>
    cases ys with
    | nil =>
      refine absurd ?_ endsToo.head_ne
      exact (congrArg List.head? same).symm
    | cons y ys =>
      have first : (name x.1).toList ++ (ofNat x.2.natAbs).toList ++
          (written (xs.map (powerPart name .times)) ++ rest) =
          (name y.1).toList ++ (ofNat y.2.natAbs).toList ++
            (written (ys.map (powerPart name .times)) ++ others) := by
        simpa [written, Part.chars, powerPart, Separator.char] using same
      obtain ⟨sameName, sameExponent, later⟩ := power_unique (named x (by simp))
        (namedToo y (by simp)) (boundary_written _ ends.boundary)
        (boundary_written _ endsToo.boundary) first
      obtain rfl := apart x (by simp) y (by simp) (String.toList_inj.mp sameName) sameExponent
      obtain ⟨sameRow, sameRest⟩ := ih (named.mono (List.subset_cons_self x xs))
        (namedToo.mono (List.subset_cons_self x ys))
        (fun z inXs w inYs => apart z (by simp [inXs]) w (by simp [inYs])) later
      exact ⟨by rw [sameRow], sameRest⟩

/-! ### Numerators and denominators -/

section Sides

variable {xs ys : List (α × Int)} {rest others : List Char} (named : Named name xs)
  (namedToo : Named name ys) (apart : Apart name xs ys)

/-- A factor begins with a symbol character. -/
theorem piece_append_ne (separator : Separator) {entry : α × Int} {c : Char}
    (symbolic : IsSymbol (name entry.1).toList) (other : isSymbolChar c = false) :
    (powerPart name separator entry).piece ++ rest ≠ c :: others := by
  obtain ⟨first, more, spelled⟩ := List.exists_cons_of_ne_nil symbolic.1
  have starts : isSymbolChar first = true := List.all_eq_true.mp symbolic.2 first (by simp [spelled])
  intro same
  have here : first = c := by
    simp only [powerPart, spelled, List.cons_append, List.cons.injEq] at same
    exact same.1
  rw [← here, starts] at other
  cases other

/-- A row without its first separator. -/
theorem row_unique {x y : α × Int} (named : Named name (x :: xs)) (namedToo : Named name (y :: ys))
    (apart : Apart name (x :: xs) (y :: ys)) (ends : RowEnd rest) (endsToo : RowEnd others)
    (same : (powerPart name .times x).piece ++ written (xs.map (powerPart name .times)) ++ rest =
      (powerPart name .times y).piece ++ written (ys.map (powerPart name .times)) ++ others) :
    x :: xs = y :: ys ∧ rest = others := by
  refine written_unique named namedToo apart ends endsToo ?_
  -- The separator is the same on both sides.
  have joined := congrArg ('·' :: ·) same
  simpa [written, Part.chars, Separator.char, powerPart] using joined

include named namedToo apart in
theorem top_unique (ends : RowEnd rest) (endsToo : RowEnd others)
    (same : (topPart name xs).piece ++ written (topParts name xs) ++ rest =
      (topPart name ys).piece ++ written (topParts name ys) ++ others) :
    xs = ys ∧ rest = others := by
  -- The digit one is no symbol character.
  have digit : isSymbolChar '1' = false := by decide
  match xs, ys with
  | [], [] => exact ⟨rfl, by simpa [topPart, topParts, written] using same⟩
  | [], y :: ys =>
    simp only [List.append_assoc] at same
    exact absurd same.symm (piece_append_ne .times (namedToo y (by simp)) digit)
  | x :: xs, [] =>
    simp only [List.append_assoc] at same
    exact absurd same (piece_append_ne .times (named x (by simp)) digit)
  | x :: xs, y :: ys => exact row_unique named namedToo apart ends endsToo same

theorem rowEnd_bottom (entries : List (α × Int)) : RowEnd (written (bottomParts name entries)) := by
  match entries with
  | [] => exact trivial
  | [_] => exact .inl rfl
  | _ :: _ :: _ => exact .inl rfl

include named namedToo apart in
theorem bottom_unique
    (same : written (bottomParts name xs) = written (bottomParts name ys)) : xs = ys := by
  -- Nor is the parenthesis.
  have group : isSymbolChar '(' = false := by decide
  match xs, ys with
  | [], [] => rfl
  | [], [_] | [], _ :: _ :: _ | [_], [] | _ :: _ :: _, [] => cases same
  | [x], [y] =>
    have single : (powerPart name .times x).piece ++ written [] ++ [] =
        (powerPart name .times y).piece ++ written [] ++ [] := by
      simpa [bottomParts, written, Part.chars, Separator.char, powerPart] using same
    have nothing : RowEnd [] := trivial
    exact (row_unique named namedToo apart nothing nothing single).1
  | [x], y :: z :: ys =>
    have behind := congrArg List.tail same
    exact absurd behind (piece_append_ne .per (named x (by simp)) group)
  | x :: z :: xs, [y] =>
    have behind := congrArg List.tail same
    exact absurd behind.symm (piece_append_ne .per (namedToo y (by simp)) group)
  | x :: z :: xs, y :: w :: ys =>
    have inside : (powerPart name .times x).piece ++
        written ((z :: xs).map (powerPart name .times)) ++ [')'] =
        (powerPart name .times y).piece ++ written ((w :: ys).map (powerPart name .times)) ++ [')'] := by
      simpa [bottomParts, written, Part.chars, Separator.char, grouped] using same
    have closing : RowEnd [')'] := .inr rfl
    exact (row_unique named namedToo apart closing closing inside).1

end Sides

/-! ### Texts -/

variable [Ord α] {c d : Composite α}

theorem text_ne_empty (named : Named name c.entries) (occurs : c ≠ 1) : c.text name ≠ "" := by
  have each : ∀ entry ∈ c.entries, Readable name entry ∨ Unreadable name entry := by
    intro entry member
    rcases Nat.lt_or_ge Composite.exponentLimit entry.2.natAbs with large | within
    · exact .inr (.inl ⟨named entry member, large⟩)
    · exact .inl ⟨named entry member, within⟩
  intro empty
  exact text_ne_nil each occurs (by rw [empty]; rfl)

/-- The numerator ends where the bar is, and what is left is the denominator. -/
theorem sides_eq_of_text_eq (named : Named name c.entries) (namedToo : Named name d.entries)
    (differ : ∀ x ∈ c.entries, ∀ y ∈ d.entries, name x.1 = name y.1 → x.1 = y.1)
    (occurs : c ≠ 1) (occursToo : d ≠ 1) (same : c.text name = d.text name) :
    c.above = d.above ∧ c.below = d.below := by
  have above : Apart name c.above d.above :=
    apart_filter (fun n => 0 < n) differ fun m n positive positiveToo => by
      rw [Int.sign_eq_one_of_pos (of_decide_eq_true positive),
        Int.sign_eq_one_of_pos (of_decide_eq_true positiveToo)]
  have below : Apart name c.below d.below :=
    apart_filter (fun n => n < 0) differ fun m n negative negativeToo => by
      rw [Int.sign_eq_neg_one_of_neg (of_decide_eq_true negative),
        Int.sign_eq_neg_one_of_neg (of_decide_eq_true negativeToo)]
  -- Each text is its numerator and then its denominator, which begins with the bar if there is one.
  have spelled := congrArg String.toList same
  rw [toList_text name occurs, toList_text name occursToo, parts, parts, written, written,
    List.flatMap_append, List.flatMap_append, ← List.append_assoc, ← List.append_assoc] at spelled
  obtain ⟨sameAbove, rest⟩ := top_unique (named.mono (List.filter_subset_self _))
    (namedToo.mono (List.filter_subset_self _)) above (rowEnd_bottom c.below) (rowEnd_bottom d.below)
    spelled
  exact ⟨sameAbove, bottom_unique (named.mono (List.filter_subset_self _))
    (namedToo.mono (List.filter_subset_self _)) below rest⟩

variable [TransOrd α] [LawfulEqOrd α]

/-- A composite is what stands on its two sides. -/
theorem eq_of_sides (above : c.above = d.above) (below : c.below = d.below) : c = d := by
  refine Composite.ext_count fun a => ?_
  rw [Composite.count_eq_total, Composite.count_eq_total, ← Composite.total_above_add_total_below c,
    ← Composite.total_above_add_total_below d, above, below]

/-- Texts are the same only if composites are, as long as the atoms that occur have different
names. -/
theorem eq_of_text_eq (named : Named name c.entries) (namedToo : Named name d.entries)
    (differ : ∀ x ∈ c.entries, ∀ y ∈ d.entries, name x.1 = name y.1 → x.1 = y.1)
    (same : c.text name = d.text name) : c = d := by
  by_cases occurs : c = 1
  · subst occurs
    by_contra other
    exact text_ne_empty namedToo (Ne.symm other) same.symm
  by_cases occursToo : d = 1
  · subst occursToo
    exact absurd same (text_ne_empty named occurs)
  obtain ⟨above, below⟩ := sides_eq_of_text_eq named namedToo differ occurs occursToo same
  exact eq_of_sides above below

end Metrology.Parse
