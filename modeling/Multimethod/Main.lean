import Multimethod.CommandLine.Session

/-!
# The program

Reads the file that the command line names, and prints what the session tells. A watched file
is looked at again and again until the program is stopped.
-/

namespace Multimethod

open CommandLine

/-- Prints lines where they go. -/
def printLines (lines : List Line) : IO Unit := do
  for line in lines do
    match line with
    | .out text => IO.println text
    | .err text => IO.eprintln text

/-- The text of a file, unless it cannot be read. -/
def readText (path : String) : IO (Option String) := do
  try
    let text ← IO.FS.readFile path
    return some text
  catch _ => return none

/-- Milliseconds between two looks at a watched file. -/
def pollInterval : Nat := 20

/-- Watches a file until the program is stopped. -/
partial def poll (format : Format) (w : Watcher) : IO Unit := do
  IO.sleep pollInterval.toUInt32
  let text ← readText w.path
  let (w, seen) := if text == w.text then (w, []) else w.change text
  let (w, ran) := w.advance pollInterval
  printLines ((seen ++ ran).flatMap (linesOf format))
  poll format w

/-- Runs a session in the current directory. -/
def runSession (args : List String) : IO UInt32 := do
  let directory := (← IO.currentDir).toString
  match readArguments args with
  | .error refusal =>
      let output := refused refusal
      printLines output.lines
      return output.exitCode.toUInt32
  | .ok command =>
      let path := absolutePath directory command.path
      let text ← readText path
      if command.isWatching then
        let (w, lines) := watchStart command path text
        printLines lines
        poll command.format w
        return 0
      else
        let output := profileOnce command path text
        printLines output.lines
        return output.exitCode.toUInt32

end Multimethod

/-- Runs the program. -/
def main (args : List String) : IO UInt32 :=
  Multimethod.runSession args
