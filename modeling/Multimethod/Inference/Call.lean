import Multimethod.Diagnosis
import Multimethod.Inference.Session
import Multimethod.Ty.Cases

/-!
# Calls of generic functions

A call with union-typed arguments is split into one dispatch case per choice of members, each
with a frame of its own. Past the limit the unions dispatch as a whole, and every choice is
looked up without analysing a body.
-/

namespace Multimethod.Inference

open Dispatch Multimethod.Lattice

/-- The frame of a call to which no method applies. -/
def noMethodFrame (site : CallSite) (args : List Ty) : Frame :=
  { Frame.start site args .interpreted with
    errors := [Diagnostic.noMethod site args]
    status := .errored }

/-- The frame of a call between whose methods dispatch cannot decide. -/
def ambiguousFrame (site : CallSite) (args : List Ty) (candidates : List Method) : Frame :=
  { Frame.start site args .interpreted with
    errors := [Diagnostic.ambiguous site args candidates]
    ret := .any
    status := .errored }

/-- The frames of the choices of members that dispatch rejects. -/
def unionCaseFrames (setting : Setting) (callee : String) (args : List Ty) (site : CallSite) :
    List Frame :=
  (Ty.combinations args).filterMap fun choice =>
    match lookup setting.hierarchy setting.table callee choice with
    | .matched _ => none
    | .noMethod => some (noMethodFrame site choice)
    | .ambiguous candidates => some (ambiguousFrame site choice candidates)

/-- Whether the unions of an argument list are too many to be split. -/
def exceedsSplit (setting : Setting) (args : List Ty) : Bool :=
  setting.options.maxUnionSplit < Ty.caseCount args

/-- Analyses dispatch cases in order, and tells the join of their returns and whether dispatch
    accepted all of them. -/
def callCases (setting : Setting) (call : Caller) (callee : String) (site : CallSite) :
    List (List Ty) → Ty → Bool → Walk (Ty × Bool)
  | [], result, accepted => pure (result, accepted)
  | args :: rest, result, accepted => do
      let frame ← call callee args site
      attach [frame]
      callCases setting call callee site rest (join setting.hierarchy result frame.ret)
        (accepted && frame.status != .errored)

/-- Calls a generic function and tells what it returns. -/
def callFunction (setting : Setting) (call : Caller) (callee : String) (args : List Ty)
    (site : CallSite) : Walk Ty := do
  let cases := Ty.splitCases args setting.options.maxUnionSplit
  let (result, accepted) ← callCases setting call callee site cases .bottom true
  if accepted && exceedsSplit setting args then
    attach (unionCaseFrames setting callee args site)
  pure result

end Multimethod.Inference
