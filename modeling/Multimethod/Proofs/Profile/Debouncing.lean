import Mathlib.Algebra.GroupWithZero.Nat
import Mathlib.Data.List.Induction
import Multimethod.Proofs.Profile.Timers

/-!
# Debouncing

When a watcher runs can be read off its script: a run starts when a change is as old as the
debouncing interval, unless there was a later change or the watcher was closed before. The text that
it reads is that of the last change before.
-/

namespace Multimethod

/-! ## Scripts -/

def WatchStep.duration : WatchStep → Nat
  | .wait ms => ms
  | _ => 0

@[simp] theorem WatchStep.duration_write (text : Option String) : (write text).duration = 0 := rfl

@[simp] theorem WatchStep.duration_wait (ms : Nat) : (wait ms).duration = ms := rfl

@[simp] theorem WatchStep.duration_close : close.duration = 0 := rfl

def durationOf (script : List WatchStep) : Nat :=
  (script.map (·.duration)).sum

/-- The text of a unit after a script, from the text before it. -/
def textAfter (text : Option String) (script : List WatchStep) : Option String :=
  script.foldl (fun text s => match s with | .write new => new | _ => text) text

/-- A step happens when the steps before it are over. -/
def HappensAt (script : List WatchStep) (s : WatchStep) (time : Nat) : Prop :=
  ∃ before, before ++ [s] <+: script ∧ durationOf before = time

def ChangesAt (script : List WatchStep) (time : Nat) : Prop :=
  ∃ text, HappensAt script (.write text) time

/-- At a time, the last change is as old as the debouncing interval, and the watcher was not closed
    before. -/
structure RunsAt (debounce : Nat) (script : List WatchStep) (time : Nat) : Prop where
  elapsed : debounce ≤ time
  changed : ChangesAt script (time - debounce)
  last : ∀ later, time - debounce < later → later < time → ¬ ChangesAt script later
  isOpen : ∀ earlier, earlier < time → ¬ HappensAt script .close earlier

/-- A run is due in a wait behind a script. -/
def DueWithin (debounce : Nat) (script : List WatchStep) (ms : Nat) : Prop :=
  ∃ time, durationOf script < time ∧ time ≤ durationOf script + ms ∧ RunsAt debounce script time

/-- The text of a unit at a time within a script. What happens at that very time is too late. -/
def ReadsAt (text : Option String) (script : List WatchStep) (time : Nat)
    (current : Option String) : Prop :=
  ∃ before ms, before ++ [.wait ms] <+: script ∧ durationOf before < time ∧
    time ≤ durationOf before + ms ∧ current = textAfter text before

variable {script : List WatchStep} {s : WatchStep} {debounce time : Nat}

theorem durationOf_concat (script : List WatchStep) (s : WatchStep) :
    durationOf (script ++ [s]) = durationOf script + s.duration := by
  simp [durationOf]

theorem textAfter_concat (text : Option String) (script : List WatchStep) (s : WatchStep) :
    textAfter text (script ++ [s]) = textAfter (textAfter text script) [s] :=
  List.foldl_append

theorem HappensAt.le (happens : HappensAt script s time) : time ≤ durationOf script := by
  obtain ⟨before, ⟨rest, rfl⟩, rfl⟩ := happens
  simp [durationOf]

theorem happensAt_concat {last : WatchStep} :
    HappensAt (script ++ [last]) s time ↔
      HappensAt script s time ∨ s = last ∧ time = durationOf script := by
  constructor
  · rintro ⟨before, start, rfl⟩
    rcases List.prefix_concat_iff.1 start with whole | start
    · obtain ⟨rfl, same⟩ := List.append_inj' whole rfl
      exact .inr ⟨by simpa using same, rfl⟩
    · exact .inl ⟨before, start, rfl⟩
  · rintro (⟨before, start, rfl⟩ | ⟨rfl, rfl⟩)
    · exact ⟨before, List.prefix_concat_iff.2 (.inr start), rfl⟩
    · exact ⟨script, List.prefix_refl _, rfl⟩

theorem mem_of_happensAt (happens : HappensAt script s time) : s ∈ script := by
  obtain ⟨before, start, -⟩ := happens
  exact start.subset (by simp)

theorem exists_happensAt (member : s ∈ script) : ∃ time, HappensAt script s time := by
  obtain ⟨before, rest, rfl⟩ := List.append_of_mem member
  exact ⟨_, before, ⟨rest, by simp⟩, rfl⟩

/-! ## When a run is due -/

/-- Only changes and closings before a time matter. -/
theorem RunsAt.of_same {other : List WatchStep} (positive : 1 ≤ debounce)
    (same : ∀ s earlier, (∀ ms, s ≠ .wait ms) → earlier < time →
      (HappensAt script s earlier ↔ HappensAt other s earlier))
    (runs : RunsAt debounce script time) : RunsAt debounce other time := by
  have changes : ∀ earlier, earlier < time →
      (ChangesAt script earlier ↔ ChangesAt other earlier) :=
    fun earlier before => exists_congr fun text => same (.write text) earlier (by simp) before
  exact
    { elapsed := runs.elapsed
      changed := (changes _ (Nat.sub_lt_self positive runs.elapsed)).1 runs.changed
      last := fun later behind before =>
        (changes later before).not.1 (runs.last later behind before)
      isOpen := fun earlier before =>
        (same .close earlier (by simp) before).not.1 (runs.isOpen earlier before) }

/-- A step changes nothing about the time before it, and a wait is neither a change nor a
    closing. -/
theorem runsAt_concat (positive : 1 ≤ debounce)
    (late : time ≤ durationOf script ∨ ∃ ms, s = .wait ms) :
    RunsAt debounce (script ++ [s]) time ↔ RunsAt debounce script time := by
  have same : ∀ other earlier, (∀ ms, other ≠ .wait ms) → earlier < time →
      (HappensAt (script ++ [s]) other earlier ↔ HappensAt script other earlier) := by
    intro other earlier acts before
    rw [happensAt_concat]
    refine or_iff_left ?_
    rintro ⟨rfl, rfl⟩
    rcases late with late | ⟨ms, rfl⟩
    · omega
    · exact acts ms rfl
  exact ⟨RunsAt.of_same positive same,
    RunsAt.of_same positive fun other earlier acts before => (same other earlier acts before).symm⟩

theorem not_runsAt_of_closed (closed : .close ∈ script) (ahead : durationOf script < time) :
    ¬ RunsAt debounce script time := by
  intro runs
  obtain ⟨closing, happens⟩ := exists_happensAt closed
  exact runs.isOpen closing (happens.le.trans_lt ahead) happens

/-- A change leaves only the run that it asks for itself. -/
theorem runsAt_write (ahead : durationOf script < time)
    (text : Option String) :
    RunsAt debounce (script ++ [.write text]) time ↔
      time = durationOf script + debounce ∧ .close ∉ script := by
  have changes : ChangesAt (script ++ [.write text]) (durationOf script) :=
    ⟨text, happensAt_concat.2 (.inr ⟨rfl, rfl⟩)⟩
  constructor
  · intro runs
    have elapsed := runs.elapsed
    obtain ⟨earlierText, changed⟩ := runs.changed
    have upTo := changed.le
    rw [durationOf_concat, WatchStep.duration_write, Nat.add_zero] at upTo
    have notBehind : ¬ time - debounce < durationOf script :=
      fun behind => runs.last _ behind ahead changes
    refine ⟨by omega, fun closed => ?_⟩
    exact not_runsAt_of_closed (List.mem_append_left _ closed) (by rwa [durationOf_concat]) runs
  · rintro ⟨rfl, isOpen⟩
    refine ⟨by omega, by rwa [Nat.add_sub_cancel], fun later behind before => ?_,
      fun earlier _ happens => ?_⟩
    · rintro ⟨laterText, happens⟩
      have upTo := happens.le
      rw [durationOf_concat, WatchStep.duration_write, Nat.add_zero] at upTo
      omega
    · rcases happensAt_concat.1 happens with happens | ⟨same, -⟩
      · exact isOpen (mem_of_happensAt happens)
      · cases same

namespace Clockwork

/-! ## A clockwork over a script -/

variable {c : Clockwork}

theorem after_concat (c : Clockwork) (script : List WatchStep) (s : WatchStep) :
    c.after (script ++ [s]) = ((c.after script).step s).1 :=
  List.foldl_append

theorem doingsOver_append (c : Clockwork) (script more : List WatchStep) :
    c.doingsOver (script ++ more) = c.doingsOver script ++ (c.after script).doingsOver more := by
  induction script generalizing c with
  | nil => rfl
  | cons s script ih => rw [List.cons_append, doingsOver, ih, doingsOver, List.cons_append, after,
      after, List.foldl_cons]

theorem length_doingsOver (c : Clockwork) (script : List WatchStep) :
    (c.doingsOver script).length = script.length := by
  induction script generalizing c with
  | nil => rfl
  | cons s script ih => rw [doingsOver, List.length_cons, ih, List.length_cons]

/-- Of the timers, a wait leaves those that are due later, and the others lead to runs. -/
theorem step_wait_filter (single : c.Single) (ms : Nat) :
    (c.step (.wait ms)).1.timers = c.timers.filter (c.now + ms < ·.due) ∧
      (c.step (.wait ms)).2 =
        (c.timers.filter (·.due ≤ c.now + ms)).map fun timer => .ran timer.due c.text := by
  rw [step_wait single]
  cases single with
  | idle gone => simp [gone]
  | waiting timer alone =>
      by_cases due : timer.due ≤ c.now + ms
      · simp [alone, due]
      · simp [alone, due, Nat.lt_of_not_le due]

/-- What a step leaves behind, the timers apart. -/
theorem step_rest (single : c.Single) (s : WatchStep) :
    (c.step s).1.debounce = c.debounce ∧ (c.step s).1.now = c.now + s.duration ∧
      (c.step s).1.text = textAfter c.text [s] ∧
      ((c.step s).1.isClosed = true ↔ c.isClosed = true ∨ s = .close) := by
  cases s with
  | write text =>
      rw [step_write single]
      split <;> simp [WatchStep.duration, textAfter, *]
  | wait ms =>
      rw [step_wait single]
      split <;> simp [WatchStep.duration, textAfter]
  | close =>
      rw [step_close single]
      simp [WatchStep.duration, textAfter]

/-- A run starts in a wait, with the text at hand. -/
theorem ran_mem_step (single : c.Single) {text : Option String} :
    .ran time text ∈ (c.step s).2 ↔
      ∃ ms, s = .wait ms ∧ (∃ timer ∈ c.timers, timer.due = time) ∧ time ≤ c.now + ms ∧
        text = c.text := by
  cases s with
  | write new =>
      rw [step_write single]
      split_ifs <;> simp
  | wait ms =>
      rw [(step_wait_filter single ms).2]
      constructor
      · intro member
        obtain ⟨timer, among, same⟩ := List.mem_map.1 member
        obtain ⟨among, due⟩ := List.mem_filter.1 among
        cases same
        exact ⟨ms, rfl, ⟨timer, among, rfl⟩, by simpa using due, rfl⟩
      · rintro ⟨_, ⟨⟩, ⟨timer, among, rfl⟩, due, rfl⟩
        exact List.mem_map.2 ⟨timer, List.mem_filter.2 ⟨among, by simpa using due⟩, rfl⟩
  | close =>
      rw [step_close single]
      simp

/-- The clockwork of a watcher that was started on a text, after a script. -/
def reached (debounce : Nat) (text : Option String) (script : List WatchStep) : Clockwork :=
  (start debounce text).after script

variable (debounce) (text : Option String) (script : List WatchStep)

theorem single_reached : (reached debounce text script).Single :=
  Single.after (.idle rfl rfl) script

theorem reached_concat (s : WatchStep) :
    reached debounce text (script ++ [s]) = ((reached debounce text script).step s).1 :=
  after_concat _ script s

theorem reached_rest :
    (reached debounce text script).debounce = debounce ∧
      (reached debounce text script).now = durationOf script ∧
      (reached debounce text script).text = textAfter text script ∧
      ((reached debounce text script).isClosed = true ↔ .close ∈ script) := by
  induction script using List.reverseRecOn with
  | nil => exact ⟨rfl, rfl, rfl, by simp [reached, after, start]⟩
  | append_singleton script s ih =>
      obtain ⟨interval, now, current, closed⟩ := ih
      obtain ⟨interval', now', current', closed'⟩ :=
        step_rest (single_reached debounce text script) s
      rw [reached_concat, interval', now', current', closed', interval, now, current, closed,
        durationOf_concat, textAfter_concat text script s, List.mem_append, List.mem_singleton]
      exact ⟨rfl, rfl, rfl, or_congr_right eq_comm⟩

variable {debounce text script}

/-- The timers are those of the runs to come. -/
theorem due_reached (positive : 1 ≤ debounce) (time : Nat) :
    (∃ timer ∈ (reached debounce text script).timers, timer.due = time) ↔
      durationOf script < time ∧ RunsAt debounce script time := by
  induction script using List.reverseRecOn with
  | nil =>
      constructor
      · rintro ⟨_, among, -⟩
        cases among
      · rintro ⟨-, runs⟩
        obtain ⟨_, happens⟩ := runs.changed
        cases mem_of_happensAt happens
  | append_singleton script s ih =>
      have single := single_reached debounce text script
      obtain ⟨interval, now, -, closed⟩ := reached_rest debounce text script
      rw [reached_concat, durationOf_concat]
      cases s with
      | write new =>
          rw [step_write single, WatchStep.duration_write, Nat.add_zero]
          by_cases shut : (reached debounce text script).isClosed = true
          · rw [if_pos shut]
            refine ih.trans (and_congr_right fun ahead => ?_)
            rw [runsAt_write ahead]
            exact iff_of_false (not_runsAt_of_closed (closed.1 shut) ahead)
              fun later => later.2 (closed.1 shut)
          · rw [if_neg shut, now, interval]
            constructor
            · rintro ⟨_, among, rfl⟩
              rw [List.mem_singleton.1 among]
              have ahead : durationOf script < durationOf script + debounce := by omega
              exact ⟨ahead, (runsAt_write ahead new).2 ⟨rfl, closed.not.1 shut⟩⟩
            · rintro ⟨ahead, runs⟩
              exact ⟨_, List.mem_singleton_self _, ((runsAt_write ahead new).1 runs).1.symm⟩
      | wait ms =>
          rw [(step_wait_filter single ms).1, now, runsAt_concat positive (.inr ⟨ms, rfl⟩),
            WatchStep.duration_wait]
          constructor
          · rintro ⟨timer, among, rfl⟩
            obtain ⟨among, later⟩ := List.mem_filter.1 among
            exact ⟨by simpa using later, (ih.1 ⟨timer, among, rfl⟩).2⟩
          · rintro ⟨later, runs⟩
            obtain ⟨timer, among, rfl⟩ := ih.2 ⟨by omega, runs⟩
            exact ⟨timer, List.mem_filter.2 ⟨among, by simpa using later⟩, rfl⟩
      | close =>
          rw [step_close single, WatchStep.duration_close, Nat.add_zero]
          refine iff_of_false (by simp) fun ⟨ahead, runs⟩ => ?_
          exact not_runsAt_of_closed (by simp) (by rwa [durationOf_concat]) runs

/-! ## The runs of a script -/

/-- What is done in each step of a script behind the first run over a text. -/
def doings (debounce : Nat) (text : Option String) (script : List WatchStep) : List (List Doing) :=
  (start debounce text).doingsOver script

theorem flatten_doings_concat (s : WatchStep) :
    (doings debounce text (script ++ [s])).flatten =
      (doings debounce text script).flatten ++ ((reached debounce text script).step s).2 := by
  rw [doings, doingsOver_append, List.flatten_append]
  exact congrArg _ (List.append_nil _)

theorem runs_iff (positive : 1 ≤ debounce) (time : Nat) :
    (∃ read, .ran time read ∈ (doings debounce text script).flatten) ↔
      time ≤ durationOf script ∧ RunsAt debounce script time := by
  induction script using List.reverseRecOn with
  | nil =>
      constructor
      · rintro ⟨_, among⟩
        cases among
      · rintro ⟨-, runs⟩
        obtain ⟨_, happens⟩ := runs.changed
        cases mem_of_happensAt happens
  | append_singleton script s ih =>
      have single := single_reached debounce text script
      obtain ⟨-, now, -, -⟩ := reached_rest debounce text script
      simp only [flatten_doings_concat, List.mem_append, exists_or, ih, ran_mem_step single,
        due_reached positive, now, durationOf_concat]
      constructor
      · rintro (⟨due, runs⟩ | ⟨_, ms, rfl, ⟨-, runs⟩, due, -⟩)
        · exact ⟨by omega, (runsAt_concat positive (.inl due)).2 runs⟩
        · exact ⟨due, (runsAt_concat positive (.inr ⟨ms, rfl⟩)).2 runs⟩
      · rintro ⟨due, runs⟩
        by_cases before : time ≤ durationOf script
        · exact .inl ⟨before, (runsAt_concat positive (.inl before)).1 runs⟩
        · obtain ⟨ms, rfl⟩ : ∃ ms, s = .wait ms := by
            cases s with
            | wait ms => exact ⟨ms, rfl⟩
            | write | close => simp at due; omega
          exact .inr ⟨_, ms, rfl,
            ⟨Nat.lt_of_not_le before, (runsAt_concat positive (.inr ⟨ms, rfl⟩)).1 runs⟩, due, rfl⟩

theorem mem_times_iff {doings : List Doing} :
    time ∈ doings.filterMap (·.time?) ↔ ∃ read, .ran time read ∈ doings := by
  rw [List.mem_filterMap]
  constructor
  · rintro ⟨doing, among, same⟩
    cases doing with
    | ran time' read =>
        cases same
        exact ⟨read, among⟩
    | cancelled | unsubscribed => cases same
  · rintro ⟨read, among⟩
    exact ⟨_, among, rfl⟩

/-- No two runs start at one time. -/
theorem pairwise_times (positive : 1 ≤ debounce) :
    ((doings debounce text script).flatten.filterMap (·.time?)).Pairwise (· < ·) := by
  induction script using List.reverseRecOn with
  | nil => exact .nil
  | append_singleton script s ih =>
      have single := single_reached debounce text script
      obtain ⟨-, now, -, -⟩ := reached_rest debounce text script
      rw [flatten_doings_concat, List.filterMap_append, List.pairwise_append]
      refine ⟨ih, ?_, fun earlier first later second => ?_⟩
      · cases s with
        | write new =>
            rw [step_write single]
            split_ifs <;> simp [Doing.time?]
        | wait ms =>
            rw [step_wait single]
            split <;> simp [Doing.time?]
        | close =>
            rw [step_close single]
            simp [Doing.time?]
      · have due := ((runs_iff positive earlier).1 (mem_times_iff.1 first)).1
        obtain ⟨read, among⟩ := mem_times_iff.1 second
        obtain ⟨-, -, waiting, -⟩ := (ran_mem_step single).1 among
        have ahead := ((due_reached positive later).1 waiting).1
        omega

/-- A run reads the text at hand. -/
theorem readsAt_of_ran (positive : 1 ≤ debounce) {read : Option String}
    (ran : .ran time read ∈ (doings debounce text script).flatten) :
    ReadsAt text script time read := by
  induction script using List.reverseRecOn with
  | nil => cases ran
  | append_singleton script s ih =>
      obtain ⟨-, now, current, -⟩ := reached_rest debounce text script
      rw [flatten_doings_concat, List.mem_append] at ran
      rcases ran with earlier | starts
      · obtain ⟨before, ms, start, ahead, upTo, same⟩ := ih earlier
        exact ⟨before, ms, start.trans (List.prefix_append _ _), ahead, upTo, same⟩
      · obtain ⟨ms, rfl, waiting, upTo, same⟩ :=
          (ran_mem_step (single_reached debounce text script)).1 starts
        exact ⟨script, ms, List.prefix_refl _, ((due_reached positive time).1 waiting).1,
          now ▸ upTo, same.trans current⟩

/-- A closed clockwork only unsubscribes, whenever it is closed once more. -/
theorem flatten_doingsOver_of_closed {c : Clockwork} (single : c.Single)
    (closed : c.isClosed = true) (more : List WatchStep) :
    (c.doingsOver more).flatten = List.replicate (more.count .close) .unsubscribed := by
  induction more generalizing c with
  | nil => rfl
  | cons s more ih =>
      have gone : c.timers = [] := by
        cases single with
        | idle gone => exact gone
        | waiting _ _ _ isOpen => simp [isOpen] at closed
      have still := ((step_rest single s).2.2.2).2 (.inl closed)
      rw [doingsOver, List.flatten_cons, ih (single.step s) still]
      cases s with
      | write new => simp [step_write single, closed]
      | wait ms => simp [step_wait single, gone]
      | close => simp [step_close single, List.replicate_succ]

/-- A wait shows one run if one is due in it, and nothing otherwise. -/
theorem events_wait (positive : 1 ≤ debounce) (path : String) (options : Inference.Options)
    (ms : Nat) :
    let events := (((Watcher.start path options debounce text).1.after script).step (.wait ms)).2
    DueWithin debounce script ms ∧
        events = Watcher.runEvents path options (textAfter text script) ∨
      ¬ DueWithin debounce script ms ∧ events = [] := by
  intro events
  have single := single_reached debounce text script
  obtain ⟨-, now, current, -⟩ := reached_rest debounce text script
  have seen : events =
      ((reached debounce text script).step (.wait ms)).2.flatMap (·.events path options) := by
    have same : (Watcher.start path options debounce text).1.after script =
        (reached debounce text script).shown path options :=
      after_shown path options (single_reached debounce text []) script
    exact congrArg Prod.snd (same ▸ step_shown path options single (.wait ms))
  rw [seen, step_wait single]
  cases found : (reached debounce text script).timers.find?
      (·.due ≤ (reached debounce text script).now + ms) with
  | none =>
      refine .inr ⟨fun ⟨time, ahead, upTo, runs⟩ => ?_, rfl⟩
      obtain ⟨timer, among, rfl⟩ := (due_reached positive time).2 ⟨ahead, runs⟩
      have late := List.find?_eq_none.1 found timer among
      rw [now] at late
      exact late (by simpa using upTo)
  | some timer =>
      have due := List.find?_some found
      rw [now] at due
      obtain ⟨ahead, runs⟩ :=
        (due_reached positive timer.due).1 ⟨timer, List.mem_of_find?_eq_some found, rfl⟩
      refine .inl ⟨⟨timer.due, ahead, by simpa using due, runs⟩, ?_⟩
      rw [← current]
      exact List.append_nil _

end Clockwork

/-! ## What a run comes to -/

/-- A run ends with its only answer. -/
theorem Watcher.runEvents_eq (path : String) (options : Inference.Options) (text : Option String) :
    ∃ lines : List String,
      (∃ report, runEvents path options text = lines.map .log ++ [.report report]) ∨
        ∃ failure, runEvents path options text = lines.map .log ++ [.failed failure] := by
  cases text with
  | none => exact ⟨[_], .inr ⟨.unreadable, rfl⟩⟩
  | some text =>
      cases outcome : (Profile.ofText path text options).report with
      | ok report =>
          exact ⟨_, .inl ⟨report, by rw [runEvents, outcome]⟩⟩
      | error fault =>
          refine ⟨(Profile.ofText path text options).log ++
            [s!"Run failed: {fault.message}"], .inr ⟨.fault fault, ?_⟩⟩
          rw [runEvents, outcome]
          simp [RunFailure.message]

open Clockwork in
/-- What a watcher does over a script behind its first run. -/
structure Debounced (path : String) (options : Inference.Options) (debounce : Nat)
    (text : Option String) (script : List WatchStep) : Prop where
  /-- Its events are those of a clockwork whose timers fire once, when they are due. -/
  seen : Watcher.eventsOver (Watcher.start path options debounce text).1 script =
    (doings debounce text script).map (·.flatMap (·.events path options))
  starts : ∀ time, (∃ read, .ran time read ∈ (doings debounce text script).flatten) ↔
    time ≤ durationOf script ∧ RunsAt debounce script time
  /-- A wait that follows shows one run if one is due in it, and nothing otherwise. -/
  next : ∀ ms,
    let events := (((Watcher.start path options debounce text).1.after script).step (.wait ms)).2
    DueWithin debounce script ms ∧
        events = Watcher.runEvents path options (textAfter text script) ∨
      ¬ DueWithin debounce script ms ∧ events = []
  once : ((doings debounce text script).flatten.filterMap (·.time?)).Pairwise (· < ·)
  reads : ∀ time read, .ran time read ∈ (doings debounce text script).flatten →
    ReadsAt text script time read
  /-- The events of a run end with its only answer. -/
  answers : ∀ read, ∃ lines : List String,
    (∃ report, Watcher.runEvents path options read = lines.map .log ++ [.report report]) ∨
      ∃ failure, Watcher.runEvents path options read = lines.map .log ++ [.failed failure]
  timers : ∀ before, before <+: script → (reached debounce text before).timers.length ≤ 1
  /-- Once closed, it does nothing but unsubscribe again when it is closed again. -/
  silent : ∀ before more, script = before ++ .close :: more →
    ((doings debounce text script).drop (before.length + 1)).flatten =
      List.replicate (more.count .close) .unsubscribed

open Clockwork in
theorem Watcher.debounced {debounce : Nat} (positive : 1 ≤ debounce) (path : String)
    (options : Inference.Options) (text : Option String) (script : List WatchStep) :
    Debounced path options debounce text script := by
  have silent : ∀ before more, script = before ++ .close :: more →
      ((doings debounce text script).drop (before.length + 1)).flatten =
        List.replicate (more.count .close) .unsubscribed := by
    rintro before more rfl
    have closed : (reached debounce text (before ++ [.close])).isClosed = true :=
      (reached_rest debounce text _).2.2.2.2 (by simp)
    have split : before ++ WatchStep.close :: more = before ++ [.close] ++ more := by simp
    rw [doings, split, doingsOver_append, List.drop_left' (by rw [length_doingsOver]; simp)]
    exact flatten_doingsOver_of_closed (single_reached debounce text _) closed more
  exact
    { seen := eventsOver_shown path options (single_reached debounce text []) script
      starts := runs_iff positive
      next := events_wait positive path options
      once := pairwise_times positive
      reads := fun _ _ => readsAt_of_ran positive
      answers := Watcher.runEvents_eq path options
      timers := fun before _ => (single_reached debounce text before).length_le
      silent := silent }

namespace Examples

open Clockwork

/-- Of two changes, the first leads to no run, and neither does a change after the closing. -/
def burst : List WatchStep :=
  [.write (some "f(1);"), .wait 60, .write (some "f(2);"), .wait 100, .write none, .close,
    .write (some "f(3);"), .wait 200]

theorem debounced_burst :
    (1 : Nat) ≤ 100 ∧ Debounced "unit.tpr" {} 100 (some "") burst ∧
      (doings 100 (some "") burst).flatten =
        [.cancelled, .ran 160 (some "f(2);"), .unsubscribed] :=
  ⟨by decide, Watcher.debounced (by decide) _ _ _ _, by decide⟩

end Examples

end Multimethod
