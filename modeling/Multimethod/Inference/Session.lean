import Multimethod.Dispatch.Table
import Multimethod.Environment.Narrowing
import Multimethod.Inference.Cache

/-!
# Sessions

What an analysis knows beforehand, what it remembers between calls, and the two monads in
which it runs: `Infer` for calls, and `Walk` for the expressions and statements of one body.
-/

namespace Multimethod.Inference

open Dispatch

/-- The limits of an analysis. What is limited to less than nothing is limited to nothing. -/
structure Options where
  maxCallDepth : Int := 100
  maxCacheEntries : Int := 5000
  wideningThreshold : Nat := Lattice.defaultWideningThreshold
  maxFixpointIterations : Nat := 16
  maxUnionSplit : Nat := 8

/-- What is fixed throughout an analysis. -/
structure Setting where
  hierarchy : Hierarchy
  table : MethodTable
  globals : Environment
  options : Options

/-- The environment of a list of global bindings; of two with one name the later type holds. -/
def globalEnvironment (bindings : List GlobalBinding) : Environment :=
  bindings.foldl (fun env b => env.update b.name b.type .global none)
    (Environment.create none .global)

/-- A frame on the abstract call stack. -/
structure Active where
  callee : String
  loc : Location
  args : List Ty
  key : String
  /-- The placeholder that the frame owns. -/
  serial : Nat
  /-- The lowest stack position of an outer placeholder that the frame has read. -/
  dependsOn : Option Nat

/-- Notes that the frame has read the placeholder at a stack position. -/
def Active.dependOn (active : Active) (depth : Nat) : Active :=
  { active with dependsOn := some ((active.dependsOn.map (min depth)).getD depth) }

/-- The result of a call that depends on a placeholder further out. It stays valid while that
    placeholder is pending and no placeholder has moved. -/
structure Provisional where
  frame : Frame
  dependsOn : Nat
  headKey : String
  headSerial : Nat
  generation : Nat

/-- What an analysis remembers between calls. -/
structure Session where
  cache : Cache
  provisional : Assoc Provisional
  /-- The call stack, innermost frame first. -/
  stack : List Active
  /-- Counts how often a placeholder has moved. -/
  generation : Nat

/-- The session before the first call. -/
def Session.start (options : Options) : Session :=
  ⟨Cache.empty options.maxCacheEntries, [], [], 0⟩

/-- Computations of calls. A fault leaves the session as it was at that point. -/
abbrev Infer := ExceptT Fault (StateM Session)

/-- Runs a checked computation. -/
def liftChecked {α : Type} : Checked α → Infer α
  | .ok value => pure value
  | .error fault => throw fault

/-- What a body has produced so far: the diagnostics and children of its frame, the join of
    its returns, and the environments that leave the innermost loop early. -/
structure Body where
  errors : List Diagnostic
  children : List Frame
  returns : Ty
  breaks : List Environment
  continues : List Environment

/-- A body before its first statement. -/
def Body.start : Body := ⟨[], [], .bottom, [], []⟩

/-- Computations of expressions and statements. -/
abbrev Walk := StateT Body Infer

/-- Records diagnostics on the frame of the body. -/
def report (errors : List Diagnostic) : Walk Unit :=
  modify fun body => { body with errors := body.errors ++ errors }

/-- Adds children to the frame of the body. -/
def attach (frames : List Frame) : Walk Unit :=
  modify fun body => { body with children := body.children ++ frames }

/-- Analyses one dispatch case of a function. -/
abbrev Caller := String → List Ty → CallSite → Infer Frame

end Multimethod.Inference
