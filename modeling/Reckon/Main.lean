/-
  Reckon — the program.
-/
import Reckon.CommandLine.Outcome

/-- Run with the arguments, write what the run leaves and exit with its code. -/
def main (args : List String) : IO UInt32 := do
  let outcome := Reckon.Outcome.ofArguments args (← IO.getEnv "RUST_LOG")
  IO.eprint outcome.stderr
  IO.print outcome.stdout
  return outcome.exitCode.toUInt32
