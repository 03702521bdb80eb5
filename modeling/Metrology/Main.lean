import Metrology.CommandLine
import Metrology.Shared

/-!
# The program

Runs the command line with the shared registry.
-/

def main (arguments : List String) : IO UInt32 := do
  let (registry, _) := Metrology.Shared.get {}
  let outcome := Metrology.CommandLine.run registry arguments
  IO.print outcome.out
  IO.eprint outcome.err
  return outcome.exit
