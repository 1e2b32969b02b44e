import Multimethod.Report.Basic

/-!
# The text form of a report

One block per erroring entry call. Rails on the left show how deep a call is nested:

    ┌ @ demo.tpr:9  area(::Point)
    │┌ @ demo.tpr:5  getfield(::Point, :w)
    ││ InvalidFieldAccess: type Point has no field w
    │└
    └
-/

namespace Multimethod.Report

/-- The first line of a report. -/
def header (errorCount : Nat) : String :=
  if errorCount == 0 then "No errors detected"
  else
    let noun := if errorCount == 1 then "error" else "errors"
    s!"═════ {errorCount} possible {noun} found ═════"

/-- A place as the report shows it, with or without the file. -/
def place (showFile : Bool) (loc : Location) : String :=
  if showFile then s!"{loc.file}:{loc.line}" else s!"line {loc.line}"

/-- The rails in front of a line at a depth. -/
def rail (depth : Nat) : String :=
  String.ofList (List.replicate depth '│')

mutual

/-- The lines of a call tree at a depth. Its siblings are taken as they stand. -/
def frameLines (showFile : Bool) (depth : Nat) : Frame → List String
  | ⟨site, args, _, _, _, errors, children⟩ =>
      (rail depth ++ s!"┌ @ {place showFile site.loc}  {site.render args}")
        :: errors.map (fun e => rail depth ++ s!"│ {e.kind.word}: {e.message}")
        ++ allFrameLines showFile (depth + 1) children
        ++ [rail depth ++ "└"]

/-- The lines of several call trees at a depth. -/
def allFrameLines (showFile : Bool) (depth : Nat) : List Frame → List String
  | [] => []
  | frame :: frames => frameLines showFile depth frame ++ allFrameLines showFile depth frames

end

/-- The lines about the entry calls that met a limit. -/
def failureLines (showFile : Bool) (failures : List ReportFailure) : List String :=
  if failures.isEmpty then []
  else
    s!"{failures.length} entry call(s) could not be profiled:"
      :: failures.map fun f => s!"  @ {place showFile f.loc}  {f.call}: {f.message}"

/-- The lines of a report. -/
def lines (report : Report) (showFile : Bool) : List String :=
  header report.errorCount
    :: allFrameLines showFile 0 (Frame.orderedAll report.entries)
    ++ failureLines showFile report.failures

/-- A report as text. -/
def toText (report : Report) (showFile : Bool) : String :=
  "\n".intercalate (report.lines showFile)

end Multimethod.Report
