import Metrology.Error
import Metrology.Text.Blank
import Metrology.Text.Quoted

/-!
# Reading text

A reader takes a piece off the front of a text and returns what the piece means together with the
rest. One that cannot says what it expected and where. A fault is final when the text had already
committed itself to what was expected; only other faults let a caller go on with less.
-/
namespace Metrology.Parse

inductive Expectation where
  | number
  /-- A symbol, the digit one or a group in parentheses. -/
  | factor
  /-- A power that exists. -/
  | power
  deriving DecidableEq

def Expectation.code : Expectation → String
  | number => "Float"
  | factor => "TakeWhile1"
  | power => "MapOpt"

structure Fault where
  final : Bool
  expected : Expectation
  rest : List Char
  deriving DecidableEq

/-- The severity of a fault, as messages name it. -/
def Fault.severity (fault : Fault) : String := if fault.final then "Failure" else "Error"

def Fault.message (fault : Fault) : String :=
  "Parsing " ++ fault.severity ++ ": Error \x7b input: " ++ Quoted.quote fault.rest ++
    ", code: " ++ fault.expected.code ++ " \x7d"

/-- The meaning of a piece of text and the text after it. -/
abbrev Outcome (β : Type) := Except Fault (β × List Char)

/-- The meaning of a text that has to be read to its end. -/
def complete {β : Type} : Outcome β → Except UnitError β
  | .ok (meaning, []) => .ok meaning
  | .ok (_, rest) => .error (.malformed ("Leftover input: " ++ String.ofList rest))
  | .error fault => .error (.malformed fault.message)

end Metrology.Parse
