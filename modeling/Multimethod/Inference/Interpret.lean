import Multimethod.Inference.Dispatching

/-!
# The fixpoint over calls

Every dispatch case is analysed once per run and kept in the cache. A call that meets a
pending entry takes what is known of it so far; the frame that owns the entry then repeats its
pass until the returned type is at rest, and widens it when it keeps growing. A result that
read a pending entry further out is kept only until some placeholder moves.

The depth of the call stack is limited, so the analysis of a call recurses on the room that
is left on the stack.
-/

namespace Multimethod.Inference

open Multimethod.Lattice

/-- Whether two lists of types have the same ids. -/
def sameTypes (as bs : List Ty) : Bool :=
  as.map Ty.id == bs.map Ty.id

/-- The type that an argument position has had in an earlier call; none at all if the call had
    fewer arguments. -/
def argumentAt (args : List Ty) (position : Nat) : Ty :=
  args[position]?.getD .bottom

/-- Widens the arguments of a call against those of the calls on the stack that stand at the
    same place, outermost first, so that recursion cannot make ever larger signatures. -/
def widenRecursiveArgs (setting : Setting) (stack : List Active) (callee : String)
    (args : List Ty) (site : CallSite) : List Ty :=
  let previous := (stack.filter fun f => f.callee == callee && f.loc == site.loc).reverse
  if previous.all fun f => sameTypes f.args args then args
  else
    args.zipIdx.map fun (arg, position) =>
      widen setting.hierarchy (previous.map (fun f => argumentAt f.args position) ++ [arg])
        setting.options.wideningThreshold

/-- Rebuilds the frame of an earlier result at another call. Only the children that lead to a
    diagnostic are kept, and diagnostics of the dispatch itself move to the new place. -/
def frameFromCache (source : Frame) (site : CallSite) (args : List Ty) : Frame :=
  let relocate := source.origin != .interpreted || source.status == .errored
  { site := site
    args := args
    ret := source.ret
    status := source.status
    origin := .cached
    errors :=
      if relocate then source.errors.map fun e => { e with loc := site.loc } else source.errors
    children := Frame.pruneAll source.children }

/-- Notes that the innermost frame has read something that depends on the placeholder at a
    stack position; a frame does not depend on itself. -/
def dependOn (stack : List Active) (depth : Nat) : List Active :=
  match stack with
  | [] => []
  | top :: rest => (if depth < rest.length then top.dependOn depth else top) :: rest

/-- The frame of a call that meets its own pending entry. -/
def reenter (key : String) (placeholder : Placeholder) (site : CallSite) (args : List Ty) :
    Infer Frame := do
  modify fun s =>
    { s with
      cache := s.cache.setPlaceholder key { placeholder with reentered := true }
      stack := dependOn s.stack placeholder.depth.toNat }
  pure
    { Frame.start site args .recursive with
      ret := placeholder.ret
      status := .resolved }

/-- Whether a provisional result is still valid. -/
def isCurrent (s : Session) (memo : Provisional) : Bool :=
  memo.generation == s.generation
    && (s.cache.pending? memo.headKey).any fun p => p.serial == memo.headSerial

/-- The frame of a call whose provisional result is still valid; the caller takes over its
    dependency. -/
def reuse (memo : Provisional) (site : CallSite) (args : List Ty) : Infer Frame := do
  modify fun s => { s with stack := dependOn s.stack memo.dependsOn }
  pure (frameFromCache memo.frame site args)

/-- Runs a computation and takes the innermost frame off the stack, also after a fault. -/
def popOnExit {α : Type} (inner : Infer α) : Infer α := fun s =>
  let (result, s') := inner s
  (result, { s' with stack := s'.stack.tail })

/-- What a placeholder returns after a pass that returned `ret`, and its history. -/
def nextReturn (setting : Setting) (placeholder : Placeholder) (ret : Ty) (iteration : Nat) :
    Ty × List Ty :=
  let joined := join setting.hierarchy placeholder.ret ret
  let history := placeholder.history ++ [joined]
  let threshold := setting.options.wideningThreshold
  let next :=
    if threshold < iteration then widen setting.hierarchy history threshold else joined
  (next, history)

/-- Repeats the pass over a call until what it returns is at rest, at most `left` more times.
    Tells the last frame, and whether it came to rest. -/
def settle (setting : Setting) (pass : Infer Frame) (key : String) :
    (left iteration : Nat) → Frame → Infer (Frame × Bool)
  | left, iteration, frame => do
      match (← get).cache.pending? key with
      | none => pure (frame, true)
      | some placeholder =>
          if !placeholder.reentered then pure (frame, true)
          else
            let (next, history) := nextReturn setting placeholder frame.ret iteration
            if next.same placeholder.ret then pure ({ frame with ret := next }, true)
            else
              match left with
              | 0 => pure ({ frame with ret := .any }, false)
              | left + 1 => do
                  modify fun s =>
                    { s with
                      cache := s.cache.setPlaceholder key
                        { placeholder with ret := next, history := history, reentered := false }
                      generation := s.generation + 1 }
                  let frame ← pass
                  settle setting pass key left (iteration + 1) frame

/-- Analyses a call whose placeholder is pending: one pass, and more while it re-enters
    itself. -/
def fixpoint (setting : Setting) (pass : Infer Frame) (key : String) :
    Infer (Frame × Bool) := do
  let frame ← pass
  settle setting pass key (setting.options.maxFixpointIterations - 1) 1 frame

/-- Makes a call pending and puts it on the stack. -/
def enter (callee : String) (args : List Ty) (site : CallSite) (key : String) :
    Infer Unit := do
  let s ← get
  let cache ← liftChecked (s.cache.begin key s.stack.length)
  let active : Active :=
    { callee := callee, loc := site.loc, args := args, key := key, serial := s.cache.begun,
      dependsOn := none }
  set { s with cache := cache, stack := active :: s.stack }

/-- The outer frame on which a finished call depends: the one at the lowest stack position
    that it has read. -/
def headOf (stack : List Active) (dependsOn : Option Nat) : Option (Nat × Active) :=
  match dependsOn with
  | none => none
  | some depth => (stack.reverse[depth]?).map fun head => (depth, head)

/-- Stores the result of a call that left the stack. A result that depends on a frame further
    out is only provisional, and the caller takes over the dependency. -/
def store (key : String) (dependsOn : Option Nat) (frame : Frame) (converged : Bool) :
    Infer Unit := do
  let s ← get
  match headOf s.stack dependsOn with
  | some (depth, head) =>
      let memo : Provisional :=
        { frame := frame, dependsOn := depth, headKey := head.key, headSerial := head.serial,
          generation := s.generation }
      set
        { s with
          cache := s.cache.discard key
          provisional := s.provisional.insert key memo
          stack := dependOn s.stack depth }
  | none =>
      let cache ← liftChecked (s.cache.finish key ⟨frame, converged⟩)
      set { s with cache := cache, provisional := s.provisional.erase key }

/-- What the innermost frame depends on. -/
def topDependency : Infer (Option Nat) := do
  pure ((← get).stack.head?.bind (·.dependsOn))

/-- Analyses one dispatch case, with `room` more frames allowed on the stack. -/
def interpret (setting : Setting) : (room : Nat) → Caller
  | room, callee, args, site => do
      let s ← get
      let args := widenRecursiveArgs setting s.stack callee args site
      let key := Cache.keyOf callee args
      match s.cache.find? key with
      | some (.finished result) => pure (frameFromCache result.frame site args)
      | some (.pending placeholder) => reenter key placeholder site args
      | none =>
          match (s.provisional.find? key).filter (isCurrent s) with
          | some memo => reuse memo site args
          | none =>
              match room with
              | 0 => throw (.limit .callDepth setting.options.maxCallDepth)
              | room + 1 => do
                  enter callee args site key
                  let pass := dispatchPass setting (interpret setting room) callee args site
                  let (frame, converged, dependsOn) ← popOnExit do
                    let (frame, converged) ← fixpoint setting pass key
                    pure (frame, converged, ← topDependency)
                  store key dependsOn frame converged
                  pure frame

end Multimethod.Inference
