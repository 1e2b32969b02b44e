import Mathlib
import Multimethod.Proofs.Inference.KindsOfPrograms
import Multimethod.Proofs.Inference.Lasting
import Multimethod.Proofs.Inference.Splitting
import Multimethod.Proofs.Lattice.Bounding
import Multimethod.Proofs.Ty.Substitution

/-!
# Declared return types

What a body returns is converted to the declared return type, so no pass over a call of the method
returns more. What a recursive call returns is joined from its passes behind the body. It keeps to
the declared type until it has taken more types than are joined exactly, or the limit of passes is
reached.
-/

namespace Multimethod.Inference

open Dispatch Multimethod.Lattice

/-- Whether the names in all types that a program names can be told from the marks of ids, and type
    variables from declared types. -/
structure Setting.TellsApart (setting : Setting) (entries : List EntryCall) : Prop where
  declared : ∀ d ∈ setting.hierarchy.decls, isSpelled d.name = true
  decls : ∀ d ∈ setting.hierarchy.decls, ∀ t ∈ d.types, t.apart setting.hierarchy = true
  methods : ∀ m ∈ setting.table.methods, ∀ t ∈ m.types, t.apart setting.hierarchy = true
  globals : setting.globals.Of fun t => t.apart setting.hierarchy = true
  entries : EntriesOf (fun t => t.apart setting.hierarchy = true) entries

/-- The types that are told apart in the hierarchy of a program. -/
abbrev Setting.Apart (setting : Setting) (t : Ty) : Prop :=
  t.apart setting.hierarchy = true

variable {setting : Setting} {entries : List EntryCall} {h : Hierarchy} {R : Ty} {call : Call}
  {caller : Caller} {kind returned : Ty → Prop} {known : Session → Prop}
  {bad : Fault → Session → Prop} {found : Match} {args : List Ty} {key : String}
  {pass : Infer Frame} {s t : Session} {rounds : List Round} {frame : Frame}

theorem Setting.TellsApart.closed (apart : setting.TellsApart entries) :
    Closed setting setting.Apart :=
  closed_of_spelled (structural_apart apart.declared) apart.declared
    (fun _ spelled _ named => Ty.apart_concrete.2 ⟨spelled, named⟩) apart.decls apart.methods
    apart.globals

/-! ## One pass -/

/-- A type without variables is declared for every match of a method. -/
theorem declaredReturn_of_ground (declared : found.method.returns = some R)
    (ground : R.ground h = true) : declaredReturn found = some R := by
  rw [declaredReturn, declared, Option.map_some, Ty.substitute_of_ground _ R ground,
    Ty.erase_of_ground R ground]

/-- Values that are converted to a declared type keep what a body returns below it. -/
theorem collecting_declared (apart : setting.TellsApart entries)
    (ground : R.ground setting.hierarchy = true) :
    Collecting setting setting.Apart (BoundedBy setting.hierarchy R) (some R) where
  within _ bounded := bounded.apart
  bottom := boundedBy_bottom setting.hierarchy R
  add result value bounded ofValue := by
    refine bounded.join ground ?_
    unfold convertedTo
    dsimp only
    cases converts : convertType setting.hierarchy value R with
    | some converted => exact boundedBy_convertType apart.declared ofValue ground converts
    | none => exact boundedBy_bottom setting.hierarchy R

/-- If a call is to a single method with a body, a pass over it returns what the body collects. -/
theorem ends_dispatchPass_returned (answering : Answering kind known bad caller)
    (closed : Closed setting kind) (callee : String) (ofArgs : ∀ a ∈ args, kind a)
    (single : lookup setting.hierarchy setting.table callee args = .matched [found])
    (written : found.method.intrinsic = none) (body : found.method.body.isSome = true)
    (collecting : Collecting setting kind returned (declaredReturn found)) (site : CallSite)
    (before : known s) :
    Ends (fun frame t => (frame.Of kind ∧ returned frame.ret) ∧ known t) bad
      (dispatchPass setting caller callee args site s) := by
  obtain ⟨stmts, body⟩ := Option.isSome_iff_exists.1 body
  have of := closed.matched callee args [found] ofArgs single found (List.mem_singleton_self _)
  have runs : Sound kind returned known bad
      (invokeAll setting caller site args [found] .bottom) returned := by
    have inside : invoke setting caller site found args =
        runBody setting caller found args stmts := by
      simp only [invoke, written, body]
    rw [invokeAll, inside]
    refine (sound_runBody answering closed of ofArgs body collecting).bind fun type ofType => ?_
    rw [invokeAll, bottom_join]
    exact .pure ofType
  unfold dispatchPass
  rw [single]
  refine Ends.bind (runs Body.start s ⟨closed.of_start.of, collecting.bottom⟩ before)
    fun p t _ after => ?_
  obtain ⟨⟨ofRet, collects⟩, after⟩ := after
  exact And.intro (And.intro (Frame.of_iff.2 ⟨ofArgs, collecting.within _ ofRet,
    collects.of.children⟩) ofRet) after

/-! ## All passes -/

/-- The types that a placeholder takes during passes, the last of which comes first: what it
    returned, joined with what the pass returned. -/
def typesTaken (h : Hierarchy) : List Round → List Ty
  | [] => []
  | round :: earlier => typesTaken h earlier ++ [join h round.value round.frame.ret]

@[simp] theorem length_typesTaken (h : Hierarchy) (rounds : List Round) :
    (typesTaken h rounds).length = rounds.length := by
  induction rounds with
  | nil => rfl
  | cons round earlier ih => simp [typesTaken, ih]

/-- Passes that return types of a narrower kind keep the session in a kind. -/
theorem Passes.collects (closed : Closed setting kind)
    (each : ∀ u, u.Of kind → Ends (fun frame v => (frame.Of kind ∧ returned frame.ret) ∧ v.Of kind)
      bad (pass u))
    (passes : Passes setting pass key s rounds t) (of : s.Of kind) :
    t.Of kind ∧ ∀ round ∈ rounds, kind round.frame.ret ∧ returned round.frame.ret := by
  induction passes with
  | first _ passed =>
      obtain ⟨⟨ofFrame, ofRet⟩, after⟩ := (each _ of).of_ok passed
      exact ⟨after, by simpa using ⟨ofFrame.ret, ofRet⟩⟩
  | again _ pending _ moves _ passed ih =>
      obtain ⟨before, rest⟩ := ih
      obtain ⟨next, history⟩ := closed.nextReturn (before.pending pending)
        (rest _ List.mem_cons_self).1 _
      rw [moves] at next history
      obtain ⟨⟨ofFrame, ofRet⟩, after⟩ := (each _ (before.moved next history)).of_ok passed
      exact ⟨after, List.forall_mem_cons.2 ⟨⟨ofFrame.ret, ofRet⟩, rest⟩⟩

/-- Behind passes that leave pending calls in place, the placeholder of the call knows what it took
    during them. -/
theorem Passes.history (lasting : ∀ u frame v, pass u = (.ok frame, v) → Lasts u v)
    {p : Placeholder} (begun : s.cache.pending? key = some p) (fresh : p.history = [])
    {last : Round} {earlier : List Round}
    (passes : Passes setting pass key s (last :: earlier) t) :
    ∃ q, t.cache.pending? key = some q ∧ q.ret = last.value ∧
      q.history = typesTaken setting.hierarchy earlier := by
  generalize whole : last :: earlier = rounds at passes
  induction passes generalizing last earlier with
  | first pending passed =>
      cases whole
      cases begun.symm.trans pending
      obtain ⟨met, found⟩ := (lasting _ _ _ passed).pending _ _ (find?_of_pending? pending)
      exact ⟨_, pending?_of_find? found, rfl, fresh⟩
  | @again q _ _ next history _ t _ _ pending _ moves _ passed ih =>
      cases whole
      obtain ⟨q', pending', value, known⟩ := ih rfl
      cases pending.symm.trans pending'
      have here : (t.moved key q next history).cache.find? key =
          some (.pending { q with ret := next, history := history, reentered := false }) :=
        (find?_setPlaceholder t.cache key key _).trans (if_pos rfl)
      obtain ⟨met, found⟩ := (lasting _ _ _ passed).pending _ _ here
      refine ⟨_, pending?_of_find? found, rfl, ?_⟩
      unfold nextReturn at moves
      dsimp only at moves
      rw [← (Prod.mk.inj moves).2, known, value]
      rfl

/-! ## What a recursive call returns -/

/-- What a placeholder moves to behind passes. -/
def movesTo (setting : Setting) (last : Round) (earlier : List Round) : Ty :=
  if setting.options.wideningThreshold < earlier.length + 1 then
    widen setting.hierarchy (typesTaken setting.hierarchy (last :: earlier))
      setting.options.wideningThreshold
  else join setting.hierarchy last.value last.frame.ret

theorem nextReturn_eq {p : Placeholder} {last : Round} {earlier : List Round}
    (value : p.ret = last.value) (history : p.history = typesTaken setting.hierarchy earlier) :
    nextReturn setting p last.frame.ret (earlier.length + 1) =
      (movesTo setting last earlier, typesTaken setting.hierarchy (last :: earlier)) := by
  unfold nextReturn
  rw [value, history]
  rfl

/-- Whether the types that a placeholder took during passes are few enough to be joined exactly. -/
def TakenFew (setting : Setting) (rounds : List Round) : Prop :=
  (Ty.distinct (typesTaken setting.hierarchy rounds)).length ≤ setting.options.wideningThreshold

theorem TakenFew.tail {last : Round} {earlier : List Round}
    (few : TakenFew setting (last :: earlier)) : TakenFew setting earlier :=
  (Ty.distinct_prefix _ _).length_le.trans few

/-- Unless it has taken few types, a placeholder is widened. -/
theorem movesTo_of_many {last : Round} {earlier : List Round}
    (many : ¬ TakenFew setting (last :: earlier)) :
    movesTo setting last earlier =
      widen setting.hierarchy (typesTaken setting.hierarchy (last :: earlier))
        setting.options.wideningThreshold := by
  unfold TakenFew at many
  have kept :=
    (Ty.distinctFrom_sublist [] (typesTaken setting.hierarchy (last :: earlier))).length_le
  rw [length_typesTaken, List.length_cons] at kept
  change ¬ (Ty.distinctFrom [] _).length ≤ _ at many
  exact if_pos (by omega)

/-- While it has taken few types, a placeholder moves to a type below one that bounds what the
    passes returned and what it took before. -/
theorem boundedBy_movesTo (ground : R.ground setting.hierarchy = true) {last : Round}
    {earlier : List Round} (few : TakenFew setting (last :: earlier))
    (value : BoundedBy setting.hierarchy R last.value)
    (ret : BoundedBy setting.hierarchy R last.frame.ret)
    (before : ∀ t ∈ typesTaken setting.hierarchy earlier, BoundedBy setting.hierarchy R t) :
    BoundedBy setting.hierarchy R (movesTo setting last earlier) ∧
      ∀ t ∈ typesTaken setting.hierarchy (last :: earlier), BoundedBy setting.hierarchy R t := by
  have joined := value.join ground ret
  have all : ∀ t ∈ typesTaken setting.hierarchy (last :: earlier),
      BoundedBy setting.hierarchy R t :=
    List.forall_mem_append.2 ⟨before, by simpa using joined⟩
  refine ⟨?_, all⟩
  unfold movesTo
  split
  · exact boundedBy_widen ground all few
  · exact joined

/-- While it has taken few types, a placeholder returns a type below one that bounds what the passes
    returned. -/
theorem Passes.bounded (lasting : ∀ u frame v, pass u = (.ok frame, v) → Lasts u v)
    {p : Placeholder} (begun : s.cache.pending? key = some p) (fresh : p.history = [])
    (nothing : p.ret = .bottom) (ground : R.ground setting.hierarchy = true)
    {last : Round} {earlier : List Round}
    (passes : Passes setting pass key s (last :: earlier) t)
    (each : ∀ round ∈ earlier, BoundedBy setting.hierarchy R round.frame.ret)
    (few : TakenFew setting earlier) :
    BoundedBy setting.hierarchy R last.value ∧
      ∀ t ∈ typesTaken setting.hierarchy earlier, BoundedBy setting.hierarchy R t := by
  generalize whole : last :: earlier = rounds at passes
  induction passes generalizing last earlier with
  | first pending _ =>
      cases whole
      cases begun.symm.trans pending
      refine ⟨?_, by simp [typesTaken]⟩
      exact nothing ▸ boundedBy_bottom setting.hierarchy R
  | again before pending _ moves _ _ ih =>
      cases whole
      rw [List.forall_mem_cons] at each
      obtain ⟨ofValue, ofTaken⟩ := ih each.2 few.tail rfl
      obtain ⟨q, pending', value, history⟩ := before.history lasting begun fresh
      cases pending.symm.trans pending'
      rw [nextReturn_eq value history] at moves
      obtain ⟨bounded, all⟩ := boundedBy_movesTo ground few ofValue each.1 ofTaken
      exact ⟨(Prod.mk.inj moves).1 ▸ bounded, all⟩

/-- How a call comes to return more than its passes do: in the last pass it met itself, and this was
    the last one allowed, or its placeholder has taken more types than are joined exactly. -/
inductive Call.Surpasses (setting : Setting) (call : Call) (rounds : List Round) (t : Session) :
    Ty → Prop where
  | limit {p : Placeholder} (pending : t.cache.pending? (call.key setting) = some p)
      (met : p.reentered = true)
      (reached : rounds.length = max 1 setting.options.maxFixpointIterations) :
      Surpasses setting call rounds t .any
  | widened {p : Placeholder} (pending : t.cache.pending? (call.key setting) = some p)
      (met : p.reentered = true) (many : ¬ TakenFew setting rounds) :
      Surpasses setting call rounds t
        (widen setting.hierarchy (typesTaken setting.hierarchy rounds)
          setting.options.wideningThreshold)

/-- Whether a call of a run is analysed, and is to a single method that has a body and a declared
    return type without variables. -/
structure Call.Declares (setting : Setting) (entries : List EntryCall) (call : Call)
    (found : Match) (R : Ty) : Prop where
  inRun : InRun setting entries call
  new : call.IsNew setting
  single : lookup setting.hierarchy setting.table call.callee (call.widened setting) =
    .matched [found]
  written : found.method.intrinsic = none
  body : found.method.body.isSome = true
  returns : found.method.returns = some R
  ground : R.ground setting.hierarchy = true

/-- No pass over a call returns more than the declared return type. The frame of the call does not
    either, unless the call is recursive and, behind the last pass, the limit of passes is reached
    or the placeholder is widened. -/
theorem declared_return_bounds (apart : setting.TellsApart entries)
    (declares : call.Declares setting entries found R)
    (answered : call.answer setting = (.ok frame, t)) :
    ∃ s rounds u,
      call.Enters setting s ∧
      Passes setting (call.pass setting) (call.key setting) s rounds u ∧
      (∀ round ∈ rounds, isSubtype setting.hierarchy round.frame.ret R = true) ∧
      (isSubtype setting.hierarchy frame.ret R = true ∨
        call.Surpasses setting rounds u frame.ret) := by
  have closed := apart.closed
  have of := declares.inRun.of closed apart.entries
  have room := declares.new.room answered
  rw [Call.answer_of_new declares.new room] at answered
  obtain ⟨s, u, converged, entered, settled, -⟩ := analysis_eq_ok answered
  have begun := pending?_of_find? (pending_of_enter entered)
  have ofEntered := (ends_enter_of call.callee call.site (call.key setting) of.session
    (of.widened closed) closed.bottom).of_ok entered
  obtain ⟨last, earlier, passes, -, concludes⟩ := concludes_of_fixpoint begun settled
  have collecting := collecting_declared apart declares.ground
  rw [← declaredReturn_of_ground declares.returns declares.ground] at collecting
  obtain ⟨-, each⟩ := passes.collects closed (fun v before =>
    ends_dispatchPass_returned (answering_interpret closed _) closed call.callee (of.widened closed)
      declares.single declares.written declares.body collecting call.site before) ofEntered
  have bounded : ∀ round ∈ last :: earlier, BoundedBy setting.hierarchy R round.frame.ret :=
    fun round member => (each round member).2
  have lasting : ∀ v f w, call.pass setting v = (.ok f, w) → Lasts v w := by
    intro v f w passed
    obtain ⟨script, follows⟩ := call.exists_hasScript setting
    rw [show call.pass setting = _ from follows _] at passed
    exact script.lasts (fun inner _ => lasts_of_answer inner) passed
  refine ⟨s, _, u, ⟨declares.new, room, entered⟩, passes,
    fun round member => (bounded round member).below, ?_⟩
  generalize frame.ret = ret at concludes ⊢
  cases concludes with
  | gone => exact .inl (bounded last List.mem_cons_self).below
  | quiet => exact .inl (bounded last List.mem_cons_self).below
  | given pending met reached => exact .inr (.limit pending met reached)
  | stable pending met moves _ =>
      obtain ⟨q, pending', value, history⟩ := passes.history lasting begun rfl
      cases pending.symm.trans pending'
      rw [nextReturn_eq value history] at moves
      obtain ⟨rfl, -⟩ := Prod.mk.inj moves
      by_cases few : TakenFew setting (last :: earlier)
      · obtain ⟨ofValue, ofTaken⟩ := passes.bounded lasting begun rfl rfl declares.ground
          (fun round member => bounded round (List.mem_cons_of_mem _ member)) few.tail
        exact .inl (boundedBy_movesTo declares.ground few ofValue
          (bounded last List.mem_cons_self) ofTaken).1.below
      · rw [movesTo_of_many few]
        exact .inr (.widened pending met few)

namespace Examples

/-- Computes whether all types that a unit names are told apart. -/
def tellsApart (unit : CompiledUnit) : Bool :=
  unit.hierarchy.decls.all (fun d => isSpelled d.name && Ty.allApart unit.hierarchy d.types) &&
    (unit.table.methods.all (fun m => Ty.allApart unit.hierarchy m.types) &&
      (unit.program.globals.all (·.type.apart unit.hierarchy) &&
        unit.program.entries.all fun e =>
          Ty.allApart unit.hierarchy (Expr.allTypes e.args)))

theorem tellsApart_of_computed {unit : CompiledUnit} (computed : tellsApart unit = true)
    (options : Options) : (unit.setting options).TellsApart unit.program.entries := by
  simp only [tellsApart, Bool.and_eq_true, List.all_eq_true, Ty.allApart_iff] at computed
  obtain ⟨decls, methods, globals, entries⟩ := computed
  exact ⟨fun d member => (decls d member).1, fun d member => (decls d member).2, methods,
    of_globalEnvironment globals, entries⟩

/-- The call that the first entry call of a unit is, if it is its own dispatch case. -/
def firstCall? (unit : CompiledUnit) (options : Options) : Option Call :=
  match unit.program.entries with
  | first :: _ => ownCall? (unit.setting options) first (Session.start options)
  | [] => none

theorem inRun_of_firstCall? {unit : CompiledUnit} {options : Options}
    (first : firstCall? unit options = some call) :
    InRun (unit.setting options) unit.program.entries call := by
  unfold firstCall? at first
  split at first
  · rename_i entry rest entries
    rw [entries]
    exact .entry ⟨[], rest, [], rfl, rfl⟩ (entryMakes_of_ownCall? first)
  · cases first

/-- The match of a call and the return type that it declares, if the call has to be analysed. -/
def declared? (setting : Setting) (call : Call) : Option (Match × Ty) :=
  match lookup setting.hierarchy setting.table call.callee (call.widened setting) with
  | .matched [found] =>
      match found.method.returns with
      | some R =>
          if (call.session.cache.find? (call.key setting)).isNone &&
              (call.memo? setting).isNone && found.method.intrinsic.isNone &&
              found.method.body.isSome && R.ground setting.hierarchy then
            some (found, R)
          else none
      | none => none
  | _ => none

theorem declares_of_declared? (inRun : InRun setting entries call)
    (declared : declared? setting call = some (found, R)) :
    call.Declares setting entries found R := by
  unfold declared? at declared
  split at declared
  · rename_i found' single
    split at declared
    · rename_i R' returns
      split at declared
      · rename_i checked
        cases declared
        simp only [Bool.and_eq_true, Option.isNone_iff_eq_none] at checked
        obtain ⟨⟨⟨⟨unknown, unshelved⟩, written⟩, body⟩, ground⟩ := checked
        exact ⟨inRun, ⟨unknown, unshelved⟩, single, written, body, returns, ground⟩
      · cases declared
    · cases declared
  · cases declared

/-- Computes whether the first call of a unit is answered, and its declared return type and its
    frame are as checked. -/
def firstReturns (unit : CompiledUnit) (options : Options) (check : Ty → Frame → Bool) : Bool :=
  (firstCall? unit options).any fun call =>
    (declared? (unit.setting options) call).any fun p =>
      succeeds (check p.2) (call.answer (unit.setting options))

theorem exists_of_firstReturns {unit : CompiledUnit} {options : Options}
    {check : Ty → Frame → Bool} (computed : firstReturns unit options check = true) :
    ∃ (call : Call) (found : Match) (R : Ty) (frame : Frame) (t : Session),
      call.Declares (unit.setting options) unit.program.entries found R ∧
      call.answer (unit.setting options) = (.ok frame, t) ∧ check R frame = true := by
  simp only [firstReturns, Option.any_eq_true] at computed
  obtain ⟨call, first, ⟨found, R⟩, declared, answers⟩ := computed
  obtain ⟨frame, t, answered, checked⟩ := exists_of_succeeds answers
  exact ⟨call, found, R, frame, t, declares_of_declared? (inRun_of_firstCall? first) declared,
    answered, checked⟩

/-- A recursive function that declares to return a number. -/
def countdownSource : String :=
  "function f(n): Int \x7b\n" ++
    "  if (n == 0) return 0;\n" ++
    "  return f(n - 1);\n" ++
    "\x7d\n" ++
    "f(3);\n"

/-- A recursive function whose passes climb, a box at a time, to the declared type. -/
def successorSource : String :=
  "class Box<out T> \x7b item: T; \x7d\n" ++
    "declare function first(): Box<Int>;\n" ++
    "declare function next(x: Box<Int>): Box<Integer>;\n" ++
    "declare function next(x: Box<Integer>): Box<Real>;\n" ++
    "declare function next(x: Box<Real>): Box<Number>;\n" ++
    "function f(n): Box<Number> \x7b\n" ++
    "  if (n == 0) return first();\n" ++
    "  return next(f(n));\n" ++
    "\x7d\n" ++
    "f(3);\n"

/-- The recursive call comes to rest below the declared type. -/
theorem declared_return_bounds_countdown :
    ∃ (unit : CompiledUnit) (call : Call) (found : Match) (R : Ty) (frame : Frame) (s t u : Session)
        (rounds : List Round),
      compile countdownSource "declared.tpr" = .ok unit ∧
      call.Declares (unit.setting {}) unit.program.entries found R ∧
      call.answer (unit.setting {}) = (.ok frame, t) ∧ R.id = "Int" ∧ frame.ret.id = "Int" ∧
      call.Enters (unit.setting {}) s ∧
      Passes (unit.setting {}) (call.pass (unit.setting {})) (call.key (unit.setting {})) s rounds
        u ∧
      (∀ round ∈ rounds, isSubtype unit.hierarchy round.frame.ret R = true) ∧
      (isSubtype unit.hierarchy frame.ret R = true ∨
        call.Surpasses (unit.setting {}) rounds u frame.ret) := by
  have computed : (compile countdownSource "declared.tpr").toOption.any (fun unit =>
      tellsApart unit && firstReturns unit {} fun R frame =>
        R.id == "Int" && frame.ret.id == "Int") = true := by decide +kernel
  obtain ⟨unit, compiled, computed⟩ := exists_of_any computed
  obtain ⟨apart, returns⟩ := Bool.and_eq_true_iff.1 computed
  obtain ⟨call, found, R, frame, t, declares, answered, checked⟩ := exists_of_firstReturns returns
  simp only [Bool.and_eq_true, beq_iff_eq] at checked
  obtain ⟨s, rounds, u, bounds⟩ :=
    declared_return_bounds (tellsApart_of_computed apart {}) declares answered
  exact ⟨unit, call, found, R, frame, s, t, u, rounds, compiled, declares, answered, checked.1,
    checked.2, bounds⟩

/-- Whether a call of a run returns more than is declared by the method to which it is. -/
def Surpassed (unit : CompiledUnit) (options : Options) : Prop :=
  ∃ (call : Call) (found : Match) (R : Ty) (frame : Frame) (t : Session),
    call.Declares (unit.setting options) unit.program.entries found R ∧
    call.answer (unit.setting options) = (.ok frame, t) ∧
    isSubtype unit.hierarchy frame.ret R = false

theorem surpassed_of_computed {unit : CompiledUnit} {options : Options}
    (computed : firstReturns unit options
      (fun R frame => !isSubtype unit.hierarchy frame.ret R) = true) :
    Surpassed unit options := by
  obtain ⟨call, found, R, frame, t, declares, answered, checked⟩ := exists_of_firstReturns computed
  exact ⟨call, found, R, frame, t, declares, answered, by simpa using checked⟩

/-- Whether this happens in a source in which all types are told apart. -/
def SurpassedIn (source : String) (options : Options) : Prop :=
  ∃ unit : CompiledUnit, compile source "declared.tpr" = .ok unit ∧
    (unit.setting options).TellsApart unit.program.entries ∧ Surpassed unit options

theorem surpassedIn_of_computed {source : String} {options : Options}
    (computed : (compile source "declared.tpr").toOption.any (fun unit =>
      tellsApart unit && firstReturns unit options
        (fun R frame => !isSubtype unit.hierarchy frame.ret R)) = true) :
    SurpassedIn source options := by
  obtain ⟨unit, compiled, computed⟩ := exists_of_any computed
  obtain ⟨apart, returns⟩ := Bool.and_eq_true_iff.1 computed
  exact ⟨unit, compiled, tellsApart_of_computed apart options, surpassed_of_computed returns⟩

/-- A unit in which a method has a variable `B` and returns `A | B`, where `B` is a declared type.
    What it returns first has a type `A | B` in which `B` is the variable, and then a `C`, which is
    below the declared type only. -/
def mistakenUnit : CompiledUnit where
  program := ⟨"mistaken.tpr", [], [], [], [⟨"f", [], start⟩]⟩
  hierarchy := ⟨[.any, type "A" false "Any", type "B" true "Any", type "C" false "B",
    type "D" false "Any"]⟩
  table := ⟨[
    ⟨"some", [], [], some .any, none, none, start⟩,
    ⟨"last", [], [], some (.concrete "C" []), none, none, start⟩,
    ⟨"f", [], [⟨"B", .concrete "D" []⟩], some (.union [.concrete "A" [], .abstract "B"]),
      some [
        .assign "y" (.call "some" [] start)
          (some (.union [.concrete "A" [], .typeVar "B" (.concrete "D" [])])) start,
        .branch (.call "some" [] start) [.ret (some (.name "y" start)) start] [] start,
        .ret (some (.call "last" [] start)) start],
      none, start⟩], true⟩
where
  start : Location := ⟨"mistaken.tpr", 1, 0⟩
  type (name : String) (isAbstract : Bool) (above : String) : TypeDecl :=
    ⟨name, isAbstract, some above, [], none, none⟩

/-- A recursive call returns the top if only one pass is allowed, or if its placeholder has taken four
    types. A call that is not recursive returns more than is declared if a variable is taken for a
    declared type. -/
theorem declared_return_surpassed :
    SurpassedIn countdownSource { maxFixpointIterations := 1 } ∧ SurpassedIn successorSource {} ∧
      Surpassed mistakenUnit {} :=
  ⟨surpassedIn_of_computed (by decide +kernel), surpassedIn_of_computed (by decide +kernel),
    surpassed_of_computed (by cbv)⟩

end Examples

end Multimethod.Inference
