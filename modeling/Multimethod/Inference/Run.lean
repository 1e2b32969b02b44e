import Multimethod.Inference.Interpret

/-!
# Runs

A run analyses every entry call of a program on a fresh cache. A resource limit ends only the
entry call that met it.
-/

namespace Multimethod.Inference

open Dispatch

/-- The result of an entry call: its call tree, or the limit that stopped it. -/
inductive Outcome where
  | frame (frame : Frame)
  | failure (call : String) (loc : Location) (message : String)

/-- The results of all entry calls, in order, and the number of cache entries at the end. -/
structure RunResult where
  file : String
  outcomes : List Outcome
  cacheEntries : Nat

/-- Runs a computation; a limit that it meets becomes its message. -/
def catchLimit {α : Type} (inner : Infer α) : Infer (α ⊕ String) := fun s =>
  match inner s with
  | (.ok value, s) => (.ok (.inl value), s)
  | (.error (.limit resource max), s) => (.ok (.inr (Fault.limit resource max).message), s)
  | (.error fault, s) => (.error fault, s)

/-- Analyses a call with room for a whole stack of frames. -/
def interpretCall (setting : Setting) : Caller :=
  interpret setting setting.options.maxCallDepth.toNat

/-- The finished frame of an entry call. -/
def entryFrame (entry : EntryCall) (args : List Ty) (ret : Ty) (status : FrameStatus)
    (body : Body) : Frame where
  site := { callee := entry.callee, loc := entry.loc }
  args := args
  ret := ret
  status := status
  origin := .entry
  errors := body.errors
  children := body.children

/-- Whether the entry frame itself stands for the only dispatch case of an entry call. -/
def isOwnCase (setting : Setting) (entry : EntryCall) (args : List Ty) : Bool :=
  (Ty.splitCases args setting.options.maxUnionSplit).length == 1
    && setting.table.has entry.callee
    && (setting.globals.lookup entry.callee).isNone

/-- Analyses an entry call that is its own dispatch case, and takes over the frame found. -/
def runOwnCase (setting : Setting) (entry : EntryCall) (args : List Ty) (body : Body) :
    Infer Frame := do
  let site : CallSite := { callee := entry.callee, loc := entry.loc }
  let inner ← interpretCall setting entry.callee args site
  let extra :=
    if inner.status != .errored && exceedsSplit setting args then
      unionCaseFrames setting entry.callee args site
    else []
  let body : Body :=
    { body with
      errors := body.errors ++ inner.errors
      children := body.children ++ inner.children ++ extra }
  pure (entryFrame entry args inner.ret inner.status body)

/-- Analyses an entry call whose arguments are evaluated. -/
def runEvaluated (setting : Setting) (entry : EntryCall) (args : List Ty) (body : Body) :
    Infer Frame := do
  if args.any Ty.isBottom then pure (entryFrame entry args .bottom .resolved body)
  else if isOwnCase setting entry args then runOwnCase setting entry args body
  else
    let call := interpretCall setting
    let (ret, body) ←
      (resolveCall setting call entry.callee entry.loc args setting.globals).run body
    pure (entryFrame entry args ret .resolved body)

/-- Gives up an entry call that met a limit. -/
def abandon (entry : EntryCall) (args : List Ty) (message : String) : Infer Outcome := do
  modify fun s =>
    { s with cache := s.cache.discardPlaceholders, provisional := [] }
  pure (.failure (renderCall entry.callee none args) entry.loc message)

/-- Analyses an entry call. -/
def runEntry (setting : Setting) (entry : EntryCall) : Infer Outcome := do
  let call := interpretCall setting
  match ← catchLimit ((evalAll setting call entry.args setting.globals).run Body.start) with
  | .inr message => abandon entry [] message
  | .inl (args, body) =>
      match ← catchLimit (runEvaluated setting entry args body) with
      | .inr message => abandon entry args message
      | .inl frame => pure (.frame frame)

/-- Analyses entry calls in order, on a fresh cache. -/
def runEntries (setting : Setting) (file : String) (entries : List EntryCall) :
    Infer RunResult := do
  modify fun s => { s with cache := s.cache.clear, provisional := [] }
  let outcomes ← entries.mapM (runEntry setting)
  pure ⟨file, outcomes, (← get).cache.size⟩

/-- Analyses entry calls in a new session. -/
def run (setting : Setting) (file : String) (entries : List EntryCall) : Checked RunResult :=
  ((runEntries setting file entries).run (Session.start setting.options)).1

end Multimethod.Inference
