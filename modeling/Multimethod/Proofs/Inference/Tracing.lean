import Multimethod.Proofs.Inference.Scripts

/-!
# What happens to the environments of a body

The execution of a body is traced: it is run as it is, and along with it the environments that
control gets to are listed in order, together with what happened to them. The passes over a loop
that are made on a copy of the body belong to it as well.
-/

namespace Multimethod.Inference

open Environment

/-- What happens to the environments of a body. -/
inductive Event where
  /-- Control gets to an environment. -/
  | reach (env : Environment)
  /-- A type is declared where a name is assigned. -/
  | declare (env : Environment) (target : String) (type : Ty)
  /-- A loop sets a name to the elements of what it iterates over. -/
  | iterate (env : Environment) (target : String) (element : Ty)
  /-- Paths meet. -/
  | meet (flows : List Flow)
  /-- An environment is widened, or what differs in it is set to the top. -/
  | raise (env next : Environment)

/-- Control gets to the environment of a flow, if there is one. -/
def Event.ofFlow (flow : Flow) : List Event :=
  flow.toList.map .reach

/-- A computation, and what happens in it. -/
structure Traced (α : Type) where
  run : Walk α
  events : Body → Session → List Event

namespace Traced

variable {α β : Type}

/-- Behind a computation, another one goes on from its result. -/
def bind (m : Traced α) (f : α → Traced β) : Traced β where
  run := m.run >>= fun x => (f x).run
  events body s :=
    m.events body s ++
      match m.run body s with
      | (.ok (x, next), t) => (f x).events next t
      | (.error _, _) => []

/-- A computation in which nothing happens that is to be told. -/
def quiet (m : Walk α) : Traced α :=
  ⟨m, fun _ _ => []⟩

instance : Monad Traced where
  pure x := quiet (pure x)
  bind := bind

/-- Tells what happens. -/
def note (events : List Event) : Traced Unit :=
  ⟨pure (), fun _ _ => events⟩

/-- Merges the paths that meet. -/
def meeting (h : Hierarchy) (flows : List Flow) : Traced Flow :=
  ⟨pure (mergeFlows h flows), fun _ _ => .meet flows :: Event.ofFlow (mergeFlows h flows)⟩

@[simp] theorem run_pure (x : α) : (pure x : Traced α).run = pure x := rfl

@[simp] theorem run_bind (m : Traced α) (f : α → Traced β) :
    (m >>= f).run = m.run >>= fun x => (f x).run := rfl

@[simp] theorem run_quiet (m : Walk α) : (quiet m).run = m := rfl

@[simp] theorem run_note (events : List Event) : (note events).run = pure () := rfl

@[simp] theorem run_meeting (h : Hierarchy) (flows : List Flow) :
    (meeting h flows).run = pure (mergeFlows h flows) := rfl

/-- Nothing happens behind a fault. -/
theorem bind_of_error {m : Traced α} (f : α → Traced β) {b : Body} {s t : Session} {fault : Fault}
    (ran : m.run b s = (.error fault, t)) :
    (m >>= f).events b s = m.events b s ∧ (m >>= f).run b s = (.error fault, t) := by
  constructor
  · change m.events b s ++ _ = _
    rw [ran, List.append_nil]
  · change (m.run b >>= fun p => (f p.1).run p.2) s = _
    rw [bind_run, ran]

/-- What happens behind a result happens behind all that has happened before. -/
theorem bind_of_ok {m : Traced α} (f : α → Traced β) {b next : Body} {s t : Session} {x : α}
    (ran : m.run b s = (.ok (x, next), t)) :
    (m >>= f).events b s = m.events b s ++ (f x).events next t ∧
      (m >>= f).run b s = (f x).run next t := by
  constructor
  · change m.events b s ++ _ = _
    rw [ran]
  · change (m.run b >>= fun p => (f p.1).run p.2) s = _
    rw [bind_run, ran]

/-! ## Loops -/

/-- Traces a pass on a fresh copy of the body. -/
def onScratch (pass : Traced Flow) : Traced Flow :=
  ⟨Inference.onScratch pass.run, fun _ s => pass.events Body.start s⟩

/-- Traces a scratch pass over a loop, and goes on if the environment at its head is not at rest. -/
def attempt (setting : Setting) (pass : Environment → Traced Flow) (histories : Histories)
    (head : Environment) (again : Environment → Histories → Traced Environment) :
    Traced Environment := do
  let behind ← onScratch (pass head)
  let joined := (← meeting setting.hierarchy [some head, behind]).getD head
  let (next, histories) :=
    widenAll setting.hierarchy joined histories setting.options.wideningThreshold
  if next.sameTypes head then pure head
  else do
    note [.raise joined next]
    again next histories

/-- Traces the scratch passes over a loop. -/
def headAtRest (setting : Setting) (pass : Environment → Traced Flow) :
    Nat → Histories → Environment → Traced Environment
  | 0, histories, head =>
      attempt setting pass histories head fun next _ => do
        note [.raise next (topDivergent head next)]
        pure (topDivergent head next)
  | left + 1, histories, head =>
      attempt setting pass histories head fun next histories =>
        headAtRest setting pass left histories next

/-- Traces the recorded pass of a loop. -/
def recordPass (pass : Traced Flow) : Traced (List Environment) :=
  ⟨Inference.recordPass pass.run,
    fun body => pass.events { body with breaks := [], continues := [] }⟩

/-- Traces a loop. -/
def runLoop (setting : Setting) (pass : Environment → Traced Flow) (exit : Environment → Flow)
    (env : Environment) : Traced Flow := do
  let head ← headAtRest setting pass (setting.options.maxFixpointIterations - 1) [] env
  let breaks ← recordPass (pass head)
  note (Event.ofFlow (exit head))
  meeting setting.hierarchy (exit head :: breaks.map some)

/-- Goes on where control gets to an environment. -/
def arm (flow : Flow) (next : Environment → Traced Flow) : Traced Flow :=
  match flow with
  | some env => next env
  | none => pure none

/-- Traces what comes before the update clause of a loop. -/
def beforeUpdate (setting : Setting) (behind : Flow) : Traced Flow := do
  let body ← quiet get
  meeting setting.hierarchy (behind :: body.continues.map some)

/-- Traces one pass over a loop with a condition. -/
def whilePass (setting : Setting) (call : Caller) (test : Expr)
    (body update : Environment → Traced Flow) (head : Environment) : Traced Flow := do
  note [.reach head]
  let _ ← quiet (evalCondition setting call test head)
  let behind ← arm (head.narrow setting.hierarchy test true) body
  arm (← beforeUpdate setting behind) update

/-- Traces one pass over a loop over elements. -/
def forEachPass (setting : Setting) (target : String) (element : Ty)
    (body : Environment → Traced Flow) (head : Environment) : Traced Flow := do
  note [.reach head, .iterate head target element]
  let behind ← body (head.update target element .assigned none)
  beforeUpdate setting behind

end Traced

open Traced

mutual

/-- Traces a statement. -/
def traceStmt (setting : Setting) (call : Caller) (context : BodyContext) (stmt : Stmt)
    (env : Environment) : Traced Flow :=
  match stmt with
  | .assign target value declared loc => do
      let type ← quiet (evalExpr setting call value env)
      note (declared.toList.map (.declare env target))
      quiet (execAssign setting env target type declared loc)
  | .fieldAssign object field value loc => do
      let objectType ← quiet (evalExpr setting call object env)
      let valueType ← quiet (evalExpr setting call value env)
      if !objectType.isBottom && !valueType.isBottom then
        let site : CallSite := { callee := "setfield!", loc := loc, field := some field }
        quiet (attach (setFieldFrames setting.hierarchy site objectType valueType))
      pure (some env)
  | .expr expr _ => do
      let _ ← quiet (evalExpr setting call expr env)
      pure (some env)
  | .ret value loc => do
      let type ←
        match value with
        | some expr => quiet (evalExpr setting call expr env)
        | none => pure Ty.nothing
      quiet (addReturn setting context type loc)
      pure none
  | .raise value _ => do
      let _ ← quiet (evalExpr setting call value env)
      pure none
  | .branch test consequent alternate _ => do
      let _ ← quiet (evalCondition setting call test env)
      let first ← arm (env.narrow setting.hierarchy test true)
        (traceBlock setting call context consequent)
      let second ← arm (env.narrow setting.hierarchy test false)
        (traceBlock setting call context alternate)
      meeting setting.hierarchy [first, second]
  | .loop test body update _ =>
      Traced.runLoop setting
        (whilePass setting call test (traceBlock setting call context.enterLoop body)
          (traceBlock setting call context.enterLoop update))
        (fun head => head.narrow setting.hierarchy test false) env
  | .forEach target iterable body loc => do
      let type ← quiet (evalExpr setting call iterable env)
      if type.isBottom then pure (some env)
      else
        let element ← quiet
          (callFunction setting call "getindex" [type, Ty.int] { callee := "getindex", loc := loc })
        if element.isBottom then pure (some env)
        else
          Traced.runLoop setting
            (forEachPass setting target element (traceBlock setting call context.enterLoop body))
            some env
  | .jump jump loc => quiet (execJump context jump env loc)

/-- Traces statements in order. -/
def traceBlock (setting : Setting) (call : Caller) (context : BodyContext)
    (stmts : List Stmt) (env : Environment) : Traced Flow := do
  note [.reach env]
  match stmts with
  | [] => pure (some env)
  | stmt :: rest =>
      arm (← traceStmt setting call context stmt env) (traceBlock setting call context rest)

end

/-! ## A traced body is run as it is -/

variable {setting : Setting} {call : Caller} {context : BodyContext}

theorem Traced.run_attempt (pass : Environment → Traced Flow) (histories : Histories)
    (head : Environment) (again : Environment → Histories → Traced Environment) :
    (attempt setting pass histories head again).run = (do
      let behind ← Inference.onScratch (pass head).run
      let joined := (mergeFlows setting.hierarchy [some head, behind]).getD head
      let (next, histories) :=
        widenAll setting.hierarchy joined histories setting.options.wideningThreshold
      if next.sameTypes head then pure head else (again next histories).run) := by
  rw [attempt, run_bind]
  refine bind_congr fun behind => ?_
  rw [run_bind, run_meeting, pure_bind]
  generalize widenAll setting.hierarchy _ histories _ = next
  dsimp only
  split <;> rfl

theorem Traced.run_headAtRest (pass : Environment → Traced Flow) (left : Nat)
    (histories : Histories) (head : Environment) :
    (Traced.headAtRest setting pass left histories head).run =
      Inference.headAtRest setting (fun head => (pass head).run) left histories head := by
  induction left generalizing histories head with
  | zero =>
      rw [Traced.headAtRest, run_attempt, Inference.headAtRest]
      rfl
  | succ left ih =>
      rw [Traced.headAtRest, run_attempt, Inference.headAtRest]
      refine bind_congr fun behind => ?_
      generalize widenAll setting.hierarchy _ histories _ = next
      dsimp only
      rw [ih]

theorem Traced.run_runLoop (pass : Environment → Traced Flow) (exit : Environment → Flow)
    (env : Environment) :
    (Traced.runLoop setting pass exit env).run =
      Inference.runLoop setting (fun head => (pass head).run) exit env := by
  rw [Traced.runLoop, Inference.runLoop, run_bind, run_headAtRest]
  simp only [run_bind, run_note, run_meeting, pure_bind]
  rfl

theorem Traced.run_arm (flow : Flow) (next : Environment → Traced Flow) :
    (arm flow next).run =
      match flow with
      | some env => (next env).run
      | none => pure none := by
  cases flow <;> rfl

theorem Traced.run_beforeUpdate (behind : Flow) :
    (Traced.beforeUpdate setting behind).run = Inference.beforeUpdate setting behind :=
  rfl

theorem Traced.run_whilePass {test : Expr} {stmts last : List Stmt}
    {body update : Environment → Traced Flow}
    (sameBody : ∀ env, (body env).run = execBlock setting call context.enterLoop stmts env)
    (sameUpdate : ∀ env, (update env).run = execBlock setting call context.enterLoop last env)
    (head : Environment) :
    (whilePass setting call test body update head).run =
      (Loop.whileTrue test stmts last).pass setting call context head := by
  simp only [whilePass, Loop.pass, run_bind, run_note, run_quiet, run_arm, run_beforeUpdate,
    pure_bind, sameBody, sameUpdate]
  refine bind_congr fun _ => ?_
  cases head.narrow setting.hierarchy test true <;> rfl

theorem Traced.run_forEachPass {target : String} {element : Ty} {stmts : List Stmt}
    {body : Environment → Traced Flow}
    (sameBody : ∀ env, (body env).run = execBlock setting call context.enterLoop stmts env)
    (head : Environment) :
    (forEachPass setting target element body head).run =
      (Loop.forEach target element stmts).pass setting call context head := by
  simp only [forEachPass, Loop.pass, run_bind, run_note, run_beforeUpdate, pure_bind, sameBody]

mutual

theorem run_traceStmt {context : BodyContext} (stmt : Stmt) (env : Environment) :
    (traceStmt setting call context stmt env).run = execStmt setting call context stmt env := by
  match stmt with
  | .assign target value declared loc =>
      simp only [traceStmt, execStmt, run_bind, run_note, run_quiet, pure_bind]
  | .fieldAssign object field value loc =>
      simp only [traceStmt, execStmt, run_bind, run_quiet]
      refine bind_congr fun objectType => bind_congr fun valueType => ?_
      split <;> rfl
  | .expr expr loc => simp only [traceStmt, execStmt, run_bind, run_quiet, run_pure]
  | .ret (some expr) loc => simp only [traceStmt, execStmt, run_bind, run_quiet, run_pure]
  | .ret none loc => simp only [traceStmt, execStmt, run_bind, run_quiet, run_pure]
  | .raise value loc => simp only [traceStmt, execStmt, run_bind, run_quiet, run_pure]
  | .jump jump loc => simp only [traceStmt, execStmt, run_quiet]
  | .branch test consequent alternate loc =>
      simp only [traceStmt, execStmt, run_bind, run_quiet, run_arm, run_meeting,
        run_traceBlock consequent, run_traceBlock alternate]
      refine bind_congr fun _ => ?_
      cases env.narrow setting.hierarchy test true <;>
        cases env.narrow setting.hierarchy test false <;> rfl
  | .loop test body update loc =>
      rw [traceStmt, run_runLoop, execStmt_loop]
      exact congrArg (Inference.runLoop setting · _ env)
        (funext (run_whilePass (run_traceBlock body) (run_traceBlock update)))
  | .forEach target iterable body loc =>
      rw [traceStmt, execStmt_forEach, run_bind, run_quiet]
      refine bind_congr fun type => ?_
      split
      · rfl
      · rw [run_bind, run_quiet]
        refine bind_congr fun element => ?_
        split
        · rfl
        · rw [run_runLoop]
          exact congrArg (Inference.runLoop setting · _ env)
            (funext (run_forEachPass (run_traceBlock body)))

theorem run_traceBlock {context : BodyContext} (stmts : List Stmt) (env : Environment) :
    (traceBlock setting call context stmts env).run = execBlock setting call context stmts env := by
  match stmts with
  | [] => simp only [traceBlock, execBlock, run_bind, run_note, run_pure, pure_bind]
  | stmt :: rest =>
      simp only [traceBlock, execBlock, run_bind, run_note, pure_bind, run_traceStmt stmt]
      refine bind_congr fun flow => ?_
      cases flow with
      | some next => exact run_traceBlock rest next
      | none => rfl

end

end Multimethod.Inference
