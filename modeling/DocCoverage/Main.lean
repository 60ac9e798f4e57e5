import DocCoverage.CommandLine.Run
/-!
# The program

Standard input holds the surroundings as JSON. What the run prints goes to
standard output, and its messages to standard error.
-/

namespace DocCoverage

/-- The text that is left on a stream. -/
partial def remaining (stream : IO.FS.Stream) : IO String := do
  let line ← stream.getLine
  if line.isEmpty then return ""
  return line ++ (← remaining stream)

/-- Print the end of a run. -/
def finish (done : Completion) : IO UInt32 := do
  IO.print done.output
  for line in done.messages ++ done.complaint.toList do
    IO.eprintln line
  return done.exitCode.toUInt32

end DocCoverage

/-- Run the program on the surroundings that standard input holds. -/
def main (arguments : List String) : IO UInt32 := do
  let text ← DocCoverage.remaining (← IO.getStdin)
  match (DocCoverage.Json.parse? text).bind DocCoverage.Surroundings.ofJson? with
  | some around => DocCoverage.finish (DocCoverage.CommandLine.run around arguments)
  | none =>
    IO.eprintln "Standard input does not hold the surroundings of a run."
    return 2
