import Metrology.Expr.Basic
import Metrology.Ident
import Metrology.Json.Basic

/-!
# Identifiers and expressions as data

An expression is written as its tree: `"NoUnit"`, or an object whose only field names the
constructor, such as a fraction with its numerator and denominator in an array.
-/
namespace Metrology

namespace Ident

variable {kind : IdentKind}

def toJson (id : Ident kind) : Json := .obj [("registry", .int id.registry), ("index", .int id.index)]

def ofJson? : Json → Option (Ident kind)
  | .obj fields =>
    match Json.field? fields "registry", Json.field? fields "index" with
    | some (.int registry), some (.int index) =>
      if 0 ≤ registry ∧ 0 ≤ index then some ⟨registry.toNat, index.toNat⟩ else none
    | _, _ => none
  | _ => none

end Ident

namespace Expr

variable {α : Type}

mutual

def toJson (encode : α → Json) : Expr α → Json
  | .noUnit => .str "NoUnit"
  | .atom a => .obj [("Atom", encode a)]
  | .mul terms => .obj [("Mul", .arr (termsToJson encode terms))]
  | .frac num den => .obj [("Frac", .arr [num.toJson encode, den.toJson encode])]

def termsToJson (encode : α → Json) : List (Expr α) → List Json
  | [] => []
  | term :: terms => term.toJson encode :: termsToJson encode terms

end

mutual

/-- The expression that a value describes, if the values of its atoms describe atoms. -/
def ofJson? (decode : Json → Option α) : Json → Option (Expr α)
  | .str name => if name = "NoUnit" then some .noUnit else none
  | .obj [(name, content)] =>
    if name = "Atom" then (decode content).map .atom
    else if name = "Mul" then
      match content with
      | .arr items => (termsOfJson? decode items).map .mul
      | _ => none
    else if name = "Frac" then
      match content with
      | .arr [num, den] => do return .frac (← ofJson? decode num) (← ofJson? decode den)
      | _ => none
    else none
  | _ => none

def termsOfJson? (decode : Json → Option α) : List Json → Option (List (Expr α))
  | [] => some []
  | item :: items => do return (← ofJson? decode item) :: (← termsOfJson? decode items)

end

end Expr

end Metrology
