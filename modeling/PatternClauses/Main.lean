import PatternClauses.CommandLine.Commands

/-!
# The program

Prints the report for the command line and ends with its exit code.
-/

open PatternClauses in
def main (arguments : List String) : IO UInt32 := do
  let report := Report.ofArguments arguments
  IO.print report.output
  match report.failure with
  | some failure => IO.eprintln failure.message
  | none => pure ()
  return report.exitCode.toUInt32
