import Multimethod.CommandLine.Arguments
import Multimethod.CommandLine.Path
import Multimethod.Profile.Watcher
import Multimethod.Report.Structured
import Multimethod.Report.Text

/-!
# Command line sessions

What the command line prints. Reports go to the standard output, all that is said about the
run itself goes to the error output. A run that finds anything ends with a code of its own.
-/

namespace Multimethod.CommandLine

/-- A printed text, by where it goes. -/
inductive Line where
  | out (text : String)
  | err (text : String)

/-- What a session printed and the code that it ends with. -/
structure Output where
  lines : List Line
  exitCode : Nat

/-- The texts of the files that can be read, by their absolute paths. -/
abbrev Files := Assoc String

/-- A file that gets a new text, and how long nothing happens afterwards. -/
structure Change where
  path : String
  text : String
  wait : Nat

/-- The text in which a report is printed. -/
def printed (format : Format) (report : Report) : String :=
  match format with
  | .text => report.toText true
  | .json => report.toJsonText

/-- The answer to arguments that cannot be used. -/
def refused (refusal : Refusal) : Output where
  lines :=
    (refusal.message?.toList.map .err)
      ++ (if refusal.showsUsage then usage.map .out else [])
  exitCode := 1

/-- A single run over the text of the file at an absolute path. -/
def profileOnce (command : Command) (path : String) (text : Option String) : Output :=
  match text with
  | none => ⟨[.err s!"Error: Could not read file '{path}'"], 1⟩
  | some text =>
      let profile := Profile.ofText command.path text command.options
      let head := .err s!"Profiling {command.path}..." :: profile.log.map .err
      match profile.report with
      | .error fault => ⟨head ++ [.err s!"Error: {fault.message}"], 1⟩
      | .ok report =>
          ⟨head ++ [.out (printed command.format report)], if report.isClean then 0 else 1⟩

/-- What is printed when a watcher does something. -/
def linesOf (format : Format) : WatchEvent → List Line
  | .subscribed => []
  | .unsubscribed => [.err "<watch closed>"]
  | .log line => [.err line]
  | .report report => [.out (printed format report)]
  | .failed _ => []

/-- Starts to watch the file at an absolute path. -/
def watchStart (command : Command) (path : String) (text : Option String) :
    Watcher × List Line :=
  let (w, events) := Watcher.start path command.options Watcher.defaultDebounce text
  (w, .err s!"Watching {command.path}..." :: events.flatMap (linesOf command.format))

/-- Lets a watcher see one change after the other. -/
def watchChanges (format : Format) (directory : String) (w : Watcher) (files : Files) :
    List Change → List Line
  | [] => w.close.2.flatMap (linesOf format)
  | change :: changes =>
      let files := files.insert (absolutePath directory change.path) change.text
      let (w, seen) := w.change (files.find? w.path)
      let (w, ran) := w.advance change.wait
      (seen ++ ran).flatMap (linesOf format)
        ++ watchChanges format directory w files changes

/-- A whole session in a directory, in which files change as told. -/
def session (directory : String) (files : Files) (changes : List Change) (args : List String) :
    Output :=
  match readArguments args with
  | .error refusal => refused refusal
  | .ok command =>
      let path := absolutePath directory command.path
      let text := files.find? path
      if command.isWatching then
        let (w, lines) := watchStart command path text
        ⟨lines ++ watchChanges command.format directory w files changes, 0⟩
      else profileOnce command path text

end Multimethod.CommandLine
