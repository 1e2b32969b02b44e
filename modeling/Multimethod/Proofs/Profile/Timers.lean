import Mathlib.Data.List.Sort
import Multimethod.Profile.Watcher

/-!
# The timers of a watcher

A watcher notes when its pending run is due. Below, it is compared with a clockwork that sets and
clears timers one by one and knows them by their handles only: every timer fires once, when it is
due, the earlier ones first. The two do the same at every step of a script, and the clockwork never
has more than one timer.
-/

namespace Multimethod

/-- What happens to a watched unit and its watcher from outside. -/
inductive WatchStep where
  | write (text : Option String)
  | wait (ms : Nat)
  | close
  deriving DecidableEq

namespace Watcher

def step (w : Watcher) : WatchStep → Watcher × List WatchEvent
  | .write text => w.change text
  | .wait ms => w.advance ms
  | .close => w.close

def after (w : Watcher) (script : List WatchStep) : Watcher :=
  script.foldl (fun w s => (w.step s).1) w

/-- The events of each step of a script. -/
def eventsOver (w : Watcher) : List WatchStep → List (List WatchEvent)
  | [] => []
  | s :: script => (w.step s).2 :: (w.step s).1.eventsOver script

end Watcher

/-- What a watcher does, with the time of a run and the text that it reads. -/
inductive Doing where
  | cancelled
  | ran (time : Nat) (text : Option String)
  | unsubscribed
  deriving DecidableEq

/-- The time of a run. -/
def Doing.time? : Doing → Option Nat
  | ran time _ => some time
  | _ => none

/-- How it is seen from outside. -/
def Doing.events (path : String) (options : Inference.Options) : Doing → List WatchEvent
  | cancelled => [.log s!"Change in {path}, pending run cancelled"]
  | ran _ text => Watcher.runEvents path options text
  | unsubscribed => [.unsubscribed]

/-- A timer that was set and has neither fired nor been cleared. -/
structure Timer where
  handle : Nat
  due : Nat

/-- A watcher together with its timers. -/
structure Clockwork where
  debounce : Nat
  text : Option String
  now : Nat
  timers : List Timer
  /-- How many timers were set so far. -/
  made : Nat
  /-- The handle that a further change clears. -/
  pending : Option Nat
  isClosed : Bool

namespace Clockwork

def start (debounce : Nat) (text : Option String) : Clockwork :=
  ⟨debounce, text, 0, [], 0, none, false⟩

/-- Takes away the pending timer. A handle whose timer is gone has no effect. -/
def clear (c : Clockwork) : Clockwork × List Doing :=
  match c.pending with
  | none => (c, [])
  | some handle =>
      ({ c with timers := c.timers.filter (·.handle ≠ handle), pending := none }, [.cancelled])

def setTimer (c : Clockwork) : Clockwork :=
  { c with
    timers := c.timers ++ [⟨c.made, c.now + c.debounce⟩]
    made := c.made + 1
    pending := some c.made }

/-- A timer fires when it is due. -/
def fire (c : Clockwork) (timer : Timer) : Clockwork × List Doing :=
  ( { c with
      now := timer.due
      timers := c.timers.filter (·.handle ≠ timer.handle)
      pending := none }
  , if c.isClosed then [] else [.ran timer.due c.text] )

def fireAll (c : Clockwork) : List Timer → Clockwork × List Doing
  | [] => (c, [])
  | timer :: timers =>
      let (later, doings) := (c.fire timer).1.fireAll timers
      (later, (c.fire timer).2 ++ doings)

def step (c : Clockwork) : WatchStep → Clockwork × List Doing
  | .write text =>
      let c := { c with text := text }
      if c.isClosed then (c, []) else (c.clear.1.setTimer, c.clear.2)
  | .wait ms =>
      let due := c.timers.filter (·.due ≤ c.now + ms)
      let (later, doings) := c.fireAll (due.insertionSort (·.due ≤ ·.due))
      ({ later with now := c.now + ms }, doings)
  | .close => ({ c.clear.1 with isClosed := true }, [.unsubscribed])

def after (c : Clockwork) (script : List WatchStep) : Clockwork :=
  script.foldl (fun c s => (c.step s).1) c

/-- What is done in each step of a script. -/
def doingsOver (c : Clockwork) : List WatchStep → List (List Doing)
  | [] => []
  | s :: script => (c.step s).2 :: (c.step s).1.doingsOver script

/-! ## One timer -/

/-- There is at most one timer. The handle at hand is its handle, and a closed watcher has none. -/
inductive Single (c : Clockwork) : Prop where
  | idle (gone : c.timers = []) (free : c.pending = none)
  | waiting (timer : Timer) (alone : c.timers = [timer]) (held : c.pending = some timer.handle)
      (isOpen : c.isClosed = false)

variable {c : Clockwork}

theorem Single.length_le (single : c.Single) : c.timers.length ≤ 1 := by
  cases single with
  | idle gone _ => simp [gone]
  | waiting _ alone => simp [alone]

/-- Neither the time nor the text matters. -/
theorem Single.of_eq {d : Clockwork} (single : c.Single) (timers : d.timers = c.timers)
    (pending : d.pending = c.pending) (closed : d.isClosed = c.isClosed) : d.Single := by
  cases single with
  | idle gone free => exact .idle (timers.trans gone) (pending.trans free)
  | waiting timer alone held isOpen =>
      exact .waiting timer (timers.trans alone) (pending.trans held) (closed.trans isOpen)

theorem clear_eq (single : c.Single) :
    c.clear = ({ c with timers := [], pending := none },
      if c.timers = [] then [] else [.cancelled]) := by
  cases single with
  | idle gone free =>
      rw [clear, free, if_pos gone]
      cases c
      simp_all
  | waiting timer alone held => simp [clear, held, alone]

/-- A change sets the only timer. -/
theorem step_write (single : c.Single) (text : Option String) :
    c.step (.write text) =
      if c.isClosed then ({ c with text := text }, [])
      else
        ( { c with
            text := text
            timers := [⟨c.made, c.now + c.debounce⟩]
            made := c.made + 1
            pending := some c.made }
        , if c.timers = [] then [] else [.cancelled] ) := by
  have renewed : Single { c with text := text } := single.of_eq rfl rfl rfl
  simp only [step, clear_eq renewed, setTimer, List.nil_append]

/-- A wait takes away the only timer if it is due, and runs. -/
theorem step_wait (single : c.Single) (ms : Nat) :
    c.step (.wait ms) =
      match c.timers.find? (·.due ≤ c.now + ms) with
      | none => ({ c with now := c.now + ms }, [])
      | some timer =>
          ( { c with now := c.now + ms, timers := [], pending := none }
          , [.ran timer.due c.text] ) := by
  cases single with
  | idle gone free => simp [step, gone, fireAll]
  | waiting timer alone held isOpen =>
      by_cases due : timer.due ≤ c.now + ms
      · simp [step, alone, due, fireAll, fire, isOpen]
      · simp [step, alone, due, fireAll]

theorem step_close (single : c.Single) :
    c.step .close =
      ({ c with timers := [], pending := none, isClosed := true }, [.unsubscribed]) := by
  simp only [step, clear_eq single]

theorem Single.step (single : c.Single) (s : WatchStep) : (c.step s).1.Single := by
  cases s with
  | write text =>
      rw [step_write single]
      by_cases closed : c.isClosed = true
      · rw [if_pos closed]
        exact single.of_eq rfl rfl rfl
      · rw [if_neg closed]
        exact .waiting _ rfl rfl (by simpa using closed)
  | wait ms =>
      rw [step_wait single]
      split
      · exact single.of_eq rfl rfl rfl
      · exact .idle rfl rfl
  | close =>
      rw [step_close single]
      exact .idle rfl rfl

theorem Single.after (single : c.Single) (script : List WatchStep) : (c.after script).Single := by
  induction script generalizing c with
  | nil => exact single
  | cons s script ih => exact ih (single.step s)

/-! ## A watcher and its clockwork -/

/-- The watcher with a clockwork. -/
def shown (path : String) (options : Inference.Options) (c : Clockwork) : Watcher where
  path := path
  options := options
  debounce := c.debounce
  text := c.text
  now := c.now
  due := c.timers.head?.map (·.due)
  isClosed := c.isClosed

variable (path : String) (options : Inference.Options)

theorem step_shown (single : c.Single) (s : WatchStep) :
    (c.shown path options).step s =
      ((c.step s).1.shown path options, (c.step s).2.flatMap (·.events path options)) := by
  cases s with
  | write text =>
      rw [step_write single, Watcher.step, Watcher.change]
      by_cases closed : c.isClosed = true
      · simp [shown, closed]
      · cases single with
        | idle gone => simp [shown, closed, gone]
        | waiting timer alone => simp [shown, closed, alone, Doing.events]
  | wait ms =>
      rw [step_wait single, Watcher.step, Watcher.advance]
      cases single with
      | idle gone => simp [shown, gone]
      | waiting timer alone =>
          by_cases due : timer.due ≤ c.now + ms
          · simp [shown, alone, due, Doing.events]
          · simp [shown, alone, due]
  | close =>
      rw [step_close single, Watcher.step, Watcher.close]
      simp [shown, Doing.events]

theorem after_shown (single : c.Single) (script : List WatchStep) :
    (c.shown path options).after script = (c.after script).shown path options := by
  induction script generalizing c with
  | nil => rfl
  | cons s script ih =>
      rw [Watcher.after, List.foldl_cons, step_shown path options single]
      exact ih (single.step s)

theorem eventsOver_shown (single : c.Single) (script : List WatchStep) :
    (c.shown path options).eventsOver script =
      (c.doingsOver script).map (·.flatMap (·.events path options)) := by
  induction script generalizing c with
  | nil => rfl
  | cons s script ih =>
      rw [Watcher.eventsOver, step_shown path options single, doingsOver, List.map_cons,
        ih (single.step s)]

end Clockwork

end Multimethod
