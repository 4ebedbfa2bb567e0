import Thesaurus.CommandLine.Run

/-!
# The program

Reads the files that its arguments name and prints the forest, the statistics or the configuration.
-/

namespace Thesaurus

namespace CommandLine

/-- The file that a path leads to on this computer, if it can be read. -/
def lookOnDisk (path : String) : IO (Option FileEntry) := do
  try
    return some (.file (← IO.FS.readFile path))
  catch _ => return none

/-- Runs the program and ends with its exit code. -/
def runOnDisk (arguments : List String) : IO UInt32 := do
  let exit ← run lookOnDisk arguments
  (← IO.getStdout).putStr exit.output
  (← IO.getStderr).putStr exit.complaint
  return exit.code.toUInt32

end CommandLine

end Thesaurus

/-- The entry point of the program. -/
def main (arguments : List String) : IO UInt32 :=
  Thesaurus.CommandLine.runOnDisk arguments
