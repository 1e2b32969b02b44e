import Multimethod.Profile.Basic

/-!
# Watching a source unit

A watcher profiles a source unit once, and again after every burst of changes: a change sets a
timer, and a further one before it is due sets it anew. A run that fails is told, and watching
goes on. Time is counted in milliseconds.
-/

namespace Multimethod

open Inference

/-- Why a run has no report. -/
inductive RunFailure where
  /-- The text of the unit could not be read. -/
  | unreadable
  | fault (fault : Fault)

/-- The wording of a failure. -/
def RunFailure.message : RunFailure → String
  | unreadable => "unreadable"
  | fault cause => cause.message

/-- What a watcher does that can be seen from outside. -/
inductive WatchEvent where
  | subscribed
  | unsubscribed
  | log (line : String)
  | report (report : Report)
  | failed (failure : RunFailure)

/-- A watcher of one source unit. -/
structure Watcher where
  path : String
  options : Options
  /-- How long the unit must stay unchanged before it is profiled again. -/
  debounce : Nat
  /-- The text of the unit, unless it cannot be read. -/
  text : Option String
  now : Nat
  /-- When the pending run starts. -/
  due : Option Nat
  isClosed : Bool

namespace Watcher

/-- How long a unit must stay unchanged by default. -/
def defaultDebounce : Nat := 100

/-- The events of one run over a text. -/
def runEvents (path : String) (options : Options) (text : Option String) : List WatchEvent :=
  let failed := fun (failure : RunFailure) =>
    [.log s!"Run failed: {failure.message}", .failed failure]
  match text with
  | none => failed .unreadable
  | some text =>
      let profile := Profile.ofText path text options
      profile.log.map .log
        ++ match profile.report with
          | .ok report => [.report report]
          | .error fault => failed (.fault fault)

/-- Starts watching, with a first run. -/
def start (path : String) (options : Options) (debounce : Nat) (text : Option String) :
    Watcher × List WatchEvent :=
  ( { path := path
      options := options
      debounce := debounce
      text := text
      now := 0
      due := none
      isClosed := false }
  , .subscribed :: runEvents path options text )

/-- The unit gets a new text. A pending run is put off. -/
def change (w : Watcher) (text : Option String) : Watcher × List WatchEvent :=
  let w := { w with text := text }
  if w.isClosed then (w, [])
  else
    ( { w with due := some (w.now + w.debounce) }
    , if w.due.isSome then [.log s!"Change in {w.path}, pending run cancelled"] else [] )

/-- Time goes on. A pending run starts when it is due. -/
def advance (w : Watcher) (ms : Nat) : Watcher × List WatchEvent :=
  let w := { w with now := w.now + ms }
  match w.due with
  | none => (w, [])
  | some due =>
      if due ≤ w.now then ({ w with due := none }, runEvents w.path w.options w.text)
      else (w, [])

/-- Ends watching. A pending run is dropped. -/
def close (w : Watcher) : Watcher × List WatchEvent :=
  ({ w with due := none, isClosed := true }, [.unsubscribed])

end Watcher

end Multimethod
