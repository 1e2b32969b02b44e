import Multimethod.Inference.Eval

/-!
# Executing statements

A statement turns the environment before it into the one after it, or into nothing when
control cannot continue. A loop is passed on a copy of the body until the environment at its
head is at rest, and then once more for the record.
-/

namespace Multimethod.Inference

open Environment Multimethod.Lattice

/-- What the statements of one body have in common. -/
structure BodyContext where
  /-- The declared return type. -/
  expected : Option Ty
  /-- Whether a jump has a loop to leave. -/
  inLoop : Bool

/-- The same body, inside a loop. -/
def BodyContext.enterLoop (context : BodyContext) : BodyContext :=
  { context with inLoop := true }

/-- Converts a value as an assignment or a return does, and records a failure. -/
def convertOrReport (setting : Setting) (value target : Ty) (loc : Location) : Walk Ty := do
  let (converted, errors) :=
    convertChecked setting.hierarchy value target (conversionCall value target) loc
  report errors
  pure converted

/-- Converts a value to a declared type, if there is one and the value is reached. -/
def convertDeclared (setting : Setting) (value : Ty) (declared : Option Ty)
    (loc : Location) : Walk Ty :=
  match declared with
  | some target =>
      if value.isBottom then pure value else convertOrReport setting value target loc
  | none => pure value

/-- Joins a value into what the body returns, converted to the declared return type. -/
def addReturn (setting : Setting) (context : BodyContext) (value : Ty) (loc : Location) :
    Walk Unit := do
  let result ← convertDeclared setting value context.expected loc
  modify fun body => { body with returns := join setting.hierarchy body.returns result }

/-- Assigns a name of the innermost scope. -/
def execAssign (setting : Setting) (env : Environment) (target : String) (value : Ty)
    (declared : Option Ty) (loc : Location) : Walk Flow := do
  let declared := declared.or ((env.lookupLocal target).bind (·.declared))
  let value ← convertDeclared setting value declared loc
  pure (some (env.update target value .assigned declared))

/-- Leaves the body of the innermost loop. -/
def execJump (context : BodyContext) (jump : Jump) (env : Environment) (loc : Location) :
    Walk Flow := do
  if !context.inLoop then
    throw (.malformed (.strayJump jump.keyword) (some loc))
  else
    match jump with
    | .leave => modify fun body => { body with breaks := body.breaks ++ [env] }
    | .next => modify fun body => { body with continues := body.continues ++ [env] }
    pure none

/-- Runs a pass on a fresh copy of the body, of which only the result is kept. -/
def onScratch (pass : Walk Flow) : Walk Flow := do
  let (flow, _) ← pass.run Body.start
  pure flow

/-- Passes a loop until the environment at its head is at rest. After the last of `left`
    further passes, the bindings that still differ are set to the top. -/
def headAtRest (setting : Setting) (pass : Environment → Walk Flow) :
    Nat → Histories → Environment → Walk Environment
  | left, histories, head => do
      let behind ← onScratch (pass head)
      let joined := (mergeFlows setting.hierarchy [some head, behind]).getD head
      let (next, histories) :=
        widenAll setting.hierarchy joined histories setting.options.wideningThreshold
      if next.sameTypes head then pure head
      else
        match left with
        | 0 => pure (topDivergent head next)
        | left + 1 => headAtRest setting pass left histories next

/-- Runs the recorded pass of a loop and tells which environments broke out of it. -/
def recordPass (pass : Walk Flow) : Walk (List Environment) := do
  let outer ← get
  set { outer with breaks := [], continues := [] }
  let _ ← pass
  let inner ← get
  set { inner with breaks := outer.breaks, continues := outer.continues }
  pure inner.breaks

/-- Runs a loop, given one pass over its body and the environment behind its condition. -/
def runLoop (setting : Setting) (pass : Environment → Walk Flow)
    (exit : Environment → Flow) (env : Environment) : Walk Flow := do
  let head ← headAtRest setting pass (setting.options.maxFixpointIterations - 1) [] env
  let breaks ← recordPass (pass head)
  pure (mergeFlows setting.hierarchy (exit head :: breaks.map some))

/-- The environment that starts the update clause of a loop: what comes out of the body,
    joined with every `continue`. -/
def beforeUpdate (setting : Setting) (behind : Flow) : Walk Flow := do
  let body ← get
  pure (mergeFlows setting.hierarchy (behind :: body.continues.map some))

mutual

/-- Executes a statement. -/
def execStmt (setting : Setting) (call : Caller) (context : BodyContext) (stmt : Stmt)
    (env : Environment) : Walk Flow :=
  match stmt with
  | .assign target value declared loc => do
      let type ← evalExpr setting call value env
      execAssign setting env target type declared loc
  | .fieldAssign object field value loc => do
      let objectType ← evalExpr setting call object env
      let valueType ← evalExpr setting call value env
      if !objectType.isBottom && !valueType.isBottom then
        let site : CallSite := { callee := "setfield!", loc := loc, field := some field }
        attach (setFieldFrames setting.hierarchy site objectType valueType)
      pure (some env)
  | .expr expr _ => do
      let _ ← evalExpr setting call expr env
      pure (some env)
  | .ret value loc => do
      let type ←
        match value with
        | some expr => evalExpr setting call expr env
        | none => pure Ty.nothing
      addReturn setting context type loc
      pure none
  | .raise value _ => do
      let _ ← evalExpr setting call value env
      pure none
  | .branch test consequent alternate _ => do
      let _ ← evalCondition setting call test env
      let first ←
        match env.narrow setting.hierarchy test true with
        | some thenEnv => execBlock setting call context consequent thenEnv
        | none => pure none
      let second ←
        match env.narrow setting.hierarchy test false with
        | some elseEnv => execBlock setting call context alternate elseEnv
        | none => pure none
      pure (mergeFlows setting.hierarchy [first, second])
  | .loop test body update _ =>
      let inner := context.enterLoop
      let pass := fun head => do
        let _ ← evalCondition setting call test head
        let behind ←
          match head.narrow setting.hierarchy test true with
          | some bodyEnv => execBlock setting call inner body bodyEnv
          | none => pure none
        match ← beforeUpdate setting behind with
        | some updateEnv => execBlock setting call inner update updateEnv
        | none => pure none
      runLoop setting pass (fun head => head.narrow setting.hierarchy test false) env
  | .forEach target iterable body loc => do
      let type ← evalExpr setting call iterable env
      if type.isBottom then pure (some env)
      else
        let element ←
          callFunction setting call "getindex" [type, Ty.int] { callee := "getindex", loc := loc }
        if element.isBottom then pure (some env)
        else
          let inner := context.enterLoop
          let pass := fun head => do
            let behind ←
              execBlock setting call inner body (head.update target element .assigned none)
            beforeUpdate setting behind
          runLoop setting pass some env
  | .jump jump loc => execJump context jump env loc

/-- Executes statements in order, as far as control gets. -/
def execBlock (setting : Setting) (call : Caller) (context : BodyContext)
    (stmts : List Stmt) (env : Environment) : Walk Flow :=
  match stmts with
  | [] => pure (some env)
  | stmt :: rest => do
      match ← execStmt setting call context stmt env with
      | some next => execBlock setting call context rest next
      | none => pure none

end

end Multimethod.Inference
