import Metrology.Json.Definition
import Metrology.Json.Quantity
import Metrology.Registry.Arithmetic

/-!
# The command line

    convert [-c] [-d] [-j] [-v]... QUANTITY [UNIT]

The program reads a quantity, converts it if a unit is given, and prints the quantity, its unit or
its dimension as text or as data. Options may stand before, between and after the two arguments.
Since a quantity may be negative, whatever looks like an option but is none is taken as the
quantity while there is no quantity yet; after a double hyphen nothing is an option any more.
-/
namespace Metrology.CommandLine

inductive Flag where
  | canonical | dimension | json | verbose | help | version
  deriving DecidableEq

namespace Flag

def ofLetter? : Char → Option Flag
  | 'c' => some canonical
  | 'd' => some dimension
  | 'j' => some json
  | 'v' => some verbose
  | 'h' => some help
  | 'V' => some version
  | _ => none

def ofName? : String → Option Flag
  | "canonical" => some canonical
  | "dimension" => some dimension
  | "json" => some json
  | "verbose" => some verbose
  | "help" => some help
  | "version" => some version
  | _ => none

end Flag

/-- What an argument says, as long as options are allowed. -/
inductive Argument where
  | plain (text : String)
  /-- The double hyphen. -/
  | endOfFlags
  | flags (flags : List Flag)
  /-- It looks like an option but is none. -/
  | unknown (text : String)
  /-- An option with a value, which none takes. -/
  | overfull

/-- Options are single letters after one hyphen, all of which have to be known, or a name after
two. -/
def Argument.ofString (text : String) : Argument :=
  match text.toList with
  | ['-', '-'] => endOfFlags
  | '-' :: '-' :: name =>
    let word := String.ofList (name.takeWhile (· != '='))
    match Flag.ofName? word with
    | some flag => if name.contains '=' then overfull else flags [flag]
    | none => unknown text
  | '-' :: letter :: letters =>
    match (letter :: letters).mapM Flag.ofLetter? with
    | some found => flags found
    | none => unknown text
  | _ => plain text

structure Request where
  seen : List Flag := []
  quantity : Option String := none
  unit : Option String := none

inductive Stop where
  | misuse | help | version
  deriving DecidableEq

namespace Request

def withArgument (request : Request) (text : String) : Except Stop Request :=
  match request.quantity, request.unit with
  | none, _ => .ok { request with quantity := some text }
  | some _, none => .ok { request with unit := some text }
  | some _, some _ => .error .misuse

/-- Set an option. Only the one for verbosity may be repeated. -/
def withFlag (request : Request) (flag : Flag) : Except Stop Request :=
  match flag with
  | .help => .error .help
  | .version => .error .version
  | .verbose => .ok request
  | _ =>
    if request.seen.contains flag then .error .misuse
    else .ok { request with seen := flag :: request.seen }

def finish (request : Request) : Except Stop Request :=
  if request.quantity.isNone then .error .misuse else .ok request

def read (request : Request) : List String → Except Stop Request
  | [] => request.finish
  | text :: rest =>
    match Argument.ofString text with
    | .plain text => do (← request.withArgument text).read rest
    | .endOfFlags => do (← rest.foldlM withArgument request).finish
    | .flags flags => do (← flags.foldlM withFlag request).read rest
    | .unknown text =>
      if request.quantity.isNone then do (← request.withArgument text).read rest
      else .error .misuse
    | .overfull => .error .misuse

end Request

/-- What the program leaves behind: its exit code and what it has printed. -/
structure Outcome where
  exit : UInt32
  out : String
  err : String

def usage : String := "usage: convert [-c] [-d] [-j] [-v]... QUANTITY [UNIT]"

/-- The line that answers a request. The dimension takes precedence over the unit alone. -/
def answer (r : Registry) (request : Request) : Except UnitError String := do
  let q ← r.parseQuantity (request.quantity.getD "")
  let q ← match request.unit with
    | some unit => do r.convertQuantity q (← r.parseUnit unit)
    | none => pure q
  let asData := request.seen.contains .json
  if request.seen.contains .dimension then
    let dimension ← r.dimension q.unit
    return if asData then dimension.toJson.text else r.dimensionText dimension
  else if request.seen.contains .canonical then
    return if asData then (r.unitToJson q.unit).text else r.unitText q.unit
  else
    return if asData then (r.quantityToJson q).text else r.quantityText q

def run (r : Registry) (arguments : List String) : Outcome :=
  match Request.read {} arguments with
  | .error .misuse => ⟨2, "", usage ++ "\n"⟩
  | .error .help => ⟨0, usage ++ "\n", ""⟩
  | .error .version => ⟨0, "measure 0.1.0\n", ""⟩
  | .ok request =>
    match answer r request with
    | .ok line => ⟨0, line ++ "\n", ""⟩
    | .error error => ⟨1, "", error.message ++ "\n"⟩

end Metrology.CommandLine
