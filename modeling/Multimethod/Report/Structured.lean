import Multimethod.Json.Basic
import Multimethod.Report.Basic

/-!
# The structured form of a report

The same pruned trees as in the text form, as a JSON value.
-/

namespace Multimethod

/-- A diagnostic as a JSON value. -/
def Diagnostic.toJson (e : Diagnostic) : Json :=
  .object
    [("kind", .string e.kind.word), ("message", .string e.message), ("call", .string e.call),
      ("line", .ofNat e.loc.line), ("column", .ofNat e.loc.column)]

mutual

/-- A call tree as a JSON value. Its siblings are taken as they stand. -/
def Frame.toJson : Frame → Json
  | ⟨site, args, ret, _, _, errors, children⟩ =>
      .object
        [("call", .string (site.render args)), ("file", .string site.loc.file),
          ("line", .ofNat site.loc.line), ("column", .ofNat site.loc.column),
          ("returnType", .string ret.id), ("errors", .array (errors.map Diagnostic.toJson)),
          ("children", .array (Frame.allToJson children))]

/-- Several call trees as JSON values. -/
def Frame.allToJson : List Frame → List Json
  | [] => []
  | frame :: frames => Frame.toJson frame :: Frame.allToJson frames

end

/-- An entry call that met a limit as a JSON value. -/
def ReportFailure.toJson (f : ReportFailure) : Json :=
  .object
    [("call", .string f.call), ("line", .ofNat f.loc.line), ("column", .ofNat f.loc.column),
      ("message", .string f.message)]

namespace Report

/-- A report as a JSON value. -/
def toJson (report : Report) : Json :=
  .object
    [("file", .string report.file), ("errorCount", .ofNat report.errorCount),
      ("entries", .array (Frame.allToJson (Frame.orderedAll report.entries))),
      ("failures", .array (report.failures.map ReportFailure.toJson))]

/-- A report as indented JSON text. -/
def toJsonText (report : Report) : String :=
  report.toJson.render

end Report

end Multimethod
