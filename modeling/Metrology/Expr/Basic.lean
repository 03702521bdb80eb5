import Metrology.Composite.Basic

/-!
# Expressions: products and quotients of atoms

The same trees describe units over unit symbols or identifiers and scales over scale identifiers.
`value` reads a tree in any group, `composite` reads it in the free one, and `ofComposite` spells a
composite out as a tree again. Going there and back brings a tree into canonical form (`reduce`):
no unit at all, one atom, a sorted product of atoms, or a fraction of those whose sides share
nothing.
-/
namespace Metrology

open Std

universe u v

inductive Expr (α : Type u) where
  | noUnit
  | atom (a : α)
  | mul (terms : List (Expr α))
  | frac (num den : Expr α)
  deriving Inhabited

namespace Expr

variable {α : Type u}

/-- Induction that reaches every term of a product. -/
@[elab_as_elim]
theorem induct {motive : Expr α → Prop} (noUnit : motive .noUnit)
    (atom : ∀ a, motive (.atom a))
    (mul : ∀ terms, (∀ term ∈ terms, motive term) → motive (.mul terms))
    (frac : ∀ num den, motive num → motive den → motive (.frac num den)) :
    ∀ e : Expr α, motive e
  | .noUnit => noUnit
  | .atom a => atom a
  | .mul terms => mul terms fun term _ => induct noUnit atom mul frac term
  | .frac num den => frac num den (induct noUnit atom mul frac num)
      (induct noUnit atom mul frac den)

/-! ### Equality of trees -/

mutual

def decEq [DecidableEq α] : (x y : Expr α) → Decidable (x = y)
  | .noUnit, .noUnit => isTrue rfl
  | .atom a, .atom b => decidable_of_iff (a = b) (by simp)
  | .mul xs, .mul ys => @decidable_of_iff _ (xs = ys) (by simp) (decEqTerms xs ys)
  | .frac n d, .frac m e =>
    match decEq n m, decEq d e with
    | isTrue sameNum, isTrue sameDen => isTrue (by rw [sameNum, sameDen])
    | isFalse differ, _ => isFalse fun same => differ (by injection same)
    | _, isFalse differ => isFalse fun same => differ (by injection same)
  | .noUnit, .atom _ | .noUnit, .mul _ | .noUnit, .frac _ _
  | .atom _, .noUnit | .atom _, .mul _ | .atom _, .frac _ _
  | .mul _, .noUnit | .mul _, .atom _ | .mul _, .frac _ _
  | .frac _ _, .noUnit | .frac _ _, .atom _ | .frac _ _, .mul _ => isFalse nofun

def decEqTerms [DecidableEq α] : (xs ys : List (Expr α)) → Decidable (xs = ys)
  | [], [] => isTrue rfl
  | [], _ :: _ => isFalse nofun
  | _ :: _, [] => isFalse nofun
  | x :: xs, y :: ys =>
    match decEq x y, decEqTerms xs ys with
    | isTrue sameHead, isTrue sameTail => isTrue (by rw [sameHead, sameTail])
    | isFalse differ, _ => isFalse fun same => differ (by injection same)
    | _, isFalse differ => isFalse fun same => differ (by injection same)

end

instance [DecidableEq α] : DecidableEq (Expr α) := decEq

/-! ### Visiting the atoms -/

mutual

/-- The atoms of a tree from left to right, the numerator of a fraction before its denominator. -/
def atoms : Expr α → List α
  | .noUnit => []
  | .atom a => [a]
  | .mul terms => atomsOfTerms terms
  | .frac num den => num.atoms ++ den.atoms

def atomsOfTerms : List (Expr α) → List α
  | [] => []
  | term :: terms => term.atoms ++ atomsOfTerms terms

end

mutual

/-- Change every atom and keep the shape of the tree. -/
def map {β : Type v} (f : α → β) : Expr α → Expr β
  | .noUnit => .noUnit
  | .atom a => .atom (f a)
  | .mul terms => .mul (mapTerms f terms)
  | .frac num den => .frac (num.map f) (den.map f)

def mapTerms {β : Type v} (f : α → β) : List (Expr α) → List (Expr β)
  | [] => []
  | term :: terms => term.map f :: mapTerms f terms

end

mutual

/-- Change every atom by a step that may fail; the steps are taken in the order of `atoms`. -/
def traverse {m : Type v → Type v} [Monad m] {β : Type v} (f : α → m β) : Expr α → m (Expr β)
  | .noUnit => pure .noUnit
  | .atom a => do return .atom (← f a)
  | .mul terms => do return .mul (← traverseTerms f terms)
  | .frac num den => do
    let num ← num.traverse f
    let den ← den.traverse f
    return .frac num den

def traverseTerms {m : Type v → Type v} [Monad m] {β : Type v} (f : α → m β) :
    List (Expr α) → m (List (Expr β))
  | [] => pure []
  | term :: terms => do
    let term ← term.traverse f
    let terms ← traverseTerms f terms
    return term :: terms

end

/-! ### Reading a tree in a group -/

mutual

/-- The element that a tree denotes once each atom denotes one. -/
def value {G : Type v} [One G] [Mul G] [Div G] (f : α → G) : Expr α → G
  | .noUnit => 1
  | .atom a => f a
  | .mul terms => valueOfTerms f terms
  | .frac num den => num.value f / den.value f

def valueOfTerms {G : Type v} [One G] [Mul G] [Div G] (f : α → G) : List (Expr α) → G
  | [] => 1
  | term :: terms => term.value f * valueOfTerms f terms

end

/-! ### Canonical form -/

section Canonical

variable [Ord α]

def ofAtoms : List α → Expr α
  | [] => .noUnit
  | [a] => .atom a
  | as => .mul (as.map .atom)

/-- The tree that spells a composite out: every occurrence of an atom is written, and the fraction
is left out when nothing stands below it. -/
def ofComposite (c : Composite α) : Expr α :=
  match c.denominator with
  | [] => ofAtoms c.numerator
  | den => .frac (ofAtoms c.numerator) (ofAtoms den)

variable [TransOrd α]

/-- Flatten a tree into signed counts, each derived atom replaced by its definition; `expand` has
none for an elementary atom. -/
def compositeWith (expand : α → Option (Composite α)) (e : Expr α) : Composite α :=
  e.value fun a => (expand a).getD (.single a)

/-- Flatten a tree into signed counts: products are joined, fractions within fractions are turned
over, and what occurs on both sides cancels. -/
def composite (e : Expr α) : Composite α := e.value .single

def reduceWith (expand : α → Option (Composite α)) (e : Expr α) : Expr α :=
  ofComposite (e.compositeWith expand)

def reduce (e : Expr α) : Expr α := ofComposite e.composite

def isCanonical [DecidableEq α] (e : Expr α) : Bool := e.reduce == e

/-- The canonical form of an integer power, or nothing when an exponent would exceed
`Composite.exponentLimit`. -/
def powi? (e : Expr α) (n : Int) : Option (Expr α) :=
  (e.composite.boundedPowi? n).map ofComposite

end Canonical

end Expr

end Metrology
