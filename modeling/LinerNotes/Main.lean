import LinerNotes.CommandLine.Execution

/-!
The program: it rehearses a command line on a list of files. The paths of the files come from
standard input, one on a line, and the files have no tags yet; what would be printed goes to
standard output, and the log to standard error.
-/

open LinerNotes

/-- The lines of a stream up to its end, without their line breaks. -/
partial def readLines (stream : IO.FS.Stream) (lines : List String) : IO (List String) := do
  let line ← stream.getLine
  if line.isEmpty then return lines.reverse
  else readLines stream ((line.dropEndWhile fun c => c == '\n').toString :: lines)

def main (argv : List String) : IO UInt32 := do
  let paths ← readLines (← IO.getStdin) []
  let execution := execute argv (Tree.ofListing (paths.filter fun path => path != ""))
  let output ← IO.getStdout
  let errors ← IO.getStderr
  output.putStr execution.output
  errors.putStr execution.errors
  for event in execution.events.filter (Event.passes execution.level) do
    errors.putStrLn (event.level.name ++ " - " ++ event.message)
  match execution.status with
  | .ok code => return UInt32.ofNat code
  | .error failure =>
      errors.putStrLn failure.message
      return 1
