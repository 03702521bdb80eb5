import Metrology.Decimal.Layout
import Metrology.Text.Quoted

/-!
# Data values

The values of JSON, with whole numbers and floating-point numbers kept apart, and their compact
text. Objects keep the order of their fields.
-/
namespace Metrology

inductive Json where
  | null
  | bool (b : Bool)
  | int (n : Int)
  | float (x : Float)
  | str (s : String)
  | arr (items : List Json)
  | obj (fields : List (String × Json))
  deriving Inhabited

namespace Json

/-! ### Text -/

/-- The four hexadecimal digits of a control character. -/
def controlDigits (c : Char) : List Char :=
  let digits := Nat.toDigits 16 c.toNat
  List.replicate (4 - digits.length) '0' ++ digits

/-- A character as it stands in a string: quotes, backslashes and controls are escaped. -/
def escapeChar (c : Char) : List Char :=
  match c with
  | '\"' => ['\\', '\"']
  | '\\' => ['\\', '\\']
  | '\x08' => ['\\', 'b']
  | '\x09' => ['\\', 't']
  | '\x0a' => ['\\', 'n']
  | '\x0c' => ['\\', 'f']
  | '\x0d' => ['\\', 'r']
  | _ => if c.toNat < 0x20 then '\\' :: 'u' :: controlDigits c else [c]

def quote (s : String) : String := String.ofList ('\"' :: s.toList.flatMap escapeChar ++ ['\"'])

mutual

def text : Json → String
  | null => "null"
  | bool b => if b then "true" else "false"
  | int n => toString n
  | float x => Decimal.Layout.data.text x
  | str s => quote s
  | arr items => "[" ++ ",".intercalate (itemTexts items) ++ "]"
  | obj fields => "\x7b" ++ ",".intercalate (fieldTexts fields) ++ "\x7d"

def itemTexts : List Json → List String
  | [] => []
  | item :: items => item.text :: itemTexts items

def fieldTexts : List (String × Json) → List String
  | [] => []
  | (name, value) :: fields => (quote name ++ ":" ++ value.text) :: fieldTexts fields

end

/-! ### Reading -/

/-- What a value is read as, or why it is refused. -/
abbrev Decoded (β : Type) := Except String β

/-- What kind of value this is, as it is named in refusals. -/
def description : Json → String
  | null => "null"
  | bool b => if b then "boolean `true`" else "boolean `false`"
  | int n => s!"integer `{n}`"
  | float x => "floating point `" ++ Decimal.Layout.data.text x ++ "`"
  | str s => "string " ++ Quoted.quote s.toList
  | arr _ => "sequence"
  | obj _ => "map"

/-- The refusal of a value of the wrong kind. -/
def mismatch {β : Type} (value : Json) (expected : String) : Decoded β :=
  .error s!"invalid type: {value.description}, expected {expected}"

/-- Any number is a floating-point number. -/
def toFloat : Json → Decoded Float
  | int n => .ok (Float.ofInt n)
  | float x => .ok x
  | value => value.mismatch "f64"

def field? (fields : List (String × Json)) (name : String) : Option Json :=
  (fields.find? (·.1 == name)).map (·.2)

end Json

end Metrology
