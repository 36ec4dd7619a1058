import Formulary.CommandLine.Draws
import Formulary.CommandLine.Outcome

/-!
# The program

Runs its command line, with draws from a random seed, and writes what comes of it.
-/

namespace Formulary.CommandLine

/-- How the program is called. -/
def usage : String :=
  "usage: formulary [--var NAME=VALUE]... [--define DEFINITION]... [--optimize] [--render]\n" ++
  "                 [--derive VAR | --integrate VAR] [--decimal-separator MARK] [--verbose]\n" ++
  "                 FORMULA"

/-- Writes an outcome and gives the exit code. -/
def report : Outcome → IO UInt32
  | .rejected => do
    IO.eprintln usage
    return 2
  | .failed failure => do
    IO.eprintln failure.message
    return 1
  | .exited code output errors => do
    IO.print output
    IO.eprint errors
    return UInt32.ofNat code

end Formulary.CommandLine

/-- Runs the command line that the program is given. -/
def main (arguments : List String) : IO UInt32 := do
  let seed ← IO.rand 0 (UInt64.size - 1)
  let draw := Formulary.CommandLine.uniformDraw (UInt64.ofNat seed)
  Formulary.CommandLine.report (Formulary.CommandLine.run arguments { draw })
