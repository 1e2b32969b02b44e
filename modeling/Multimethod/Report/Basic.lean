import Multimethod.Inference.Run

/-!
# Reports

What a run has found: the pruned call trees of the entry calls with diagnostics, and the entry
calls that met a limit.
-/

namespace Multimethod

open Inference

/-- An entry call that met a limit. -/
structure ReportFailure where
  call : String
  loc : Location
  message : String

/-- The findings of a run. -/
structure Report where
  file : String
  errorCount : Nat
  /-- The pruned trees of the entry calls that have diagnostics, in order. -/
  entries : List Frame
  failures : List ReportFailure

namespace Report

/-- The pruned tree of an outcome that has diagnostics. -/
def entryOf : Outcome → Option Frame
  | .frame frame => if frame.hasErrors then some frame.prune else none
  | .failure _ _ _ => none

/-- The failure of an outcome that met a limit. -/
def failureOf : Outcome → Option ReportFailure
  | .frame _ => none
  | .failure call loc message => some ⟨call, loc, message⟩

/-- The report of a run. -/
def ofRun (result : RunResult) : Report :=
  let entries := result.outcomes.filterMap entryOf
  { file := result.file
    errorCount := Frame.countAllErrors entries
    entries := entries
    failures := result.outcomes.filterMap failureOf }

/-- Whether a report has nothing to complain about. -/
def isClean (report : Report) : Bool :=
  report.errorCount == 0 && report.failures.isEmpty

end Report

/-- Puts one call tree in order: siblings by line and column, those of one place in call
    order. -/
def Frame.inSourceOrder (frames : List Frame) : List Frame :=
  frames.mergeSort fun a b => a.site.loc.notAfter b.site.loc

mutual

/-- A call tree whose siblings all stand in source order. -/
def Frame.ordered : Frame → Frame
  | ⟨site, args, ret, status, origin, errors, children⟩ =>
      ⟨site, args, ret, status, origin, errors, Frame.inSourceOrder (Frame.orderedAll children)⟩

/-- The call trees of a list, each with its siblings in source order. -/
def Frame.orderedAll : List Frame → List Frame
  | [] => []
  | frame :: frames => Frame.ordered frame :: Frame.orderedAll frames

end

end Multimethod
