import Multimethod.Rendering

/-!
# Call frames

The abstract call tree: one frame per call, with the diagnostics found directly in it and the
frames of the calls it makes, in call order.
-/

namespace Multimethod

/-- What is wrong with the analysed program. -/
inductive DiagnosticKind where
  | undefinedBinding
  | noMatchingMethod
  | ambiguousMethod
  | invalidFieldAccess
  | invalidBuiltinCall
  | typeConversionFailure
  deriving DecidableEq, Repr

/-- The word that a report writes for a kind. -/
def DiagnosticKind.word : DiagnosticKind → String
  | undefinedBinding => "UndefinedBinding"
  | noMatchingMethod => "NoMatchingMethod"
  | ambiguousMethod => "AmbiguousMethod"
  | invalidFieldAccess => "InvalidFieldAccess"
  | invalidBuiltinCall => "InvalidBuiltinCall"
  | typeConversionFailure => "TypeConversionFailure"

/-- A diagnostic: the call it is about, rendered with its argument types, and its place. -/
structure Diagnostic where
  kind : DiagnosticKind
  message : String
  call : String
  loc : Location
  deriving DecidableEq

/-- The state of a frame. A finished frame is resolved, or errored when its own dispatch or
    access failed. -/
inductive FrameStatus where
  | unvisited
  | inProgress
  | resolved
  | errored
  deriving DecidableEq, Repr

/-- How the result of a frame was obtained. -/
inductive FrameOrigin where
  /-- Its methods were analysed here. -/
  | interpreted
  /-- It was rebuilt from an earlier result. -/
  | cached
  /-- It re-entered a call that is still being analysed. -/
  | recursive
  /-- It is a field access or a method built into the analysis. -/
  | intrinsic
  /-- It is a toplevel call. -/
  | entry
  deriving DecidableEq, Repr

/-- A node of the abstract call tree. -/
structure Frame where
  site : CallSite
  args : List Ty
  ret : Ty
  status : FrameStatus
  origin : FrameOrigin
  errors : List Diagnostic
  children : List Frame

namespace Frame

/-- A frame before anything is known about its result. -/
def start (site : CallSite) (args : List Ty) (origin : FrameOrigin) : Frame where
  site := site
  args := args
  ret := .bottom
  status := .inProgress
  origin := origin
  errors := []
  children := []

instance : Inhabited Frame := ⟨start ⟨"", default, none⟩ [] .interpreted⟩

mutual

/-- Whether a frame holds or leads to a diagnostic. -/
def hasErrors : Frame → Bool
  | ⟨_, _, _, _, _, errors, children⟩ => !errors.isEmpty || someHasErrors children

/-- Whether some frame of a list holds or leads to a diagnostic. -/
def someHasErrors : List Frame → Bool
  | [] => false
  | frame :: frames => hasErrors frame || someHasErrors frames

end

mutual

/-- The diagnostics of a tree: those of the frame itself, then those of its children. -/
def collectErrors : Frame → List Diagnostic
  | ⟨_, _, _, _, _, errors, children⟩ => errors ++ collectAllErrors children

/-- The diagnostics of a list of trees, in order. -/
def collectAllErrors : List Frame → List Diagnostic
  | [] => []
  | frame :: frames => collectErrors frame ++ collectAllErrors frames

end

mutual

/-- The number of diagnostics in a tree. -/
def countErrors : Frame → Nat
  | ⟨_, _, _, _, _, errors, children⟩ => errors.length + countAllErrors children

/-- The number of diagnostics in a list of trees. -/
def countAllErrors : List Frame → Nat
  | [] => 0
  | frame :: frames => countErrors frame + countAllErrors frames

end

mutual

/-- The tree without the children that lead to no diagnostic. -/
def prune : Frame → Frame
  | ⟨site, args, ret, status, origin, errors, children⟩ =>
      ⟨site, args, ret, status, origin, errors, pruneAll children⟩

/-- The pruned trees that lead to a diagnostic. -/
def pruneAll : List Frame → List Frame
  | [] => []
  | frame :: frames =>
      if hasErrors frame then prune frame :: pruneAll frames else pruneAll frames

end

end Frame

end Multimethod
