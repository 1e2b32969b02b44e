import Multimethod.Inference.Exec

/-!
# Loops

The two statements that repeat a block run alike, once it is known what is iterated over: they differ
in what comes before and behind the block in a pass, and in where they are left.
-/

namespace Multimethod.Inference

open Environment

/-- A loop, behind the evaluation of what it runs over. -/
inductive Loop where
  | whileTrue (test : Expr) (body update : List Stmt)
  | forEach (target : String) (element : Ty) (body : List Stmt)

namespace Loop

/-- The blocks that a pass over a loop executes. -/
def blocks : Loop → List (List Stmt)
  | whileTrue _ body update => [body, update]
  | forEach _ _ body => [body]

/-- One pass over a loop, from the environment at its head. -/
def pass (setting : Setting) (call : Caller) (context : BodyContext) (loop : Loop)
    (head : Environment) : Walk Flow :=
  match loop with
  | whileTrue test body update => do
      let _ ← evalCondition setting call test head
      let behind ←
        match head.narrow setting.hierarchy test true with
        | some bodyEnv => execBlock setting call context.enterLoop body bodyEnv
        | none => pure none
      match ← beforeUpdate setting behind with
      | some updateEnv => execBlock setting call context.enterLoop update updateEnv
      | none => pure none
  | forEach target element body => do
      let behind ←
        execBlock setting call context.enterLoop body (head.update target element .assigned none)
      beforeUpdate setting behind

/-- Where a loop is left at its head. -/
def exit (h : Hierarchy) (loop : Loop) (head : Environment) : Flow :=
  match loop with
  | whileTrue test _ _ => head.narrow h test false
  | forEach _ _ _ => some head

/-- Runs a loop. -/
def run (setting : Setting) (call : Caller) (context : BodyContext) (loop : Loop)
    (env : Environment) : Walk Flow :=
  runLoop setting (loop.pass setting call context) (loop.exit setting.hierarchy) env

end Loop

variable {setting : Setting} {call : Caller} {context : BodyContext} {env : Environment}

theorem execStmt_loop (test : Expr) (body update : List Stmt) (loc : Location) :
    execStmt setting call context (.loop test body update loc) env =
      (Loop.whileTrue test body update).run setting call context env := by
  rw [execStmt]
  rfl

theorem execStmt_forEach (target : String) (iterable : Expr) (body : List Stmt) (loc : Location) :
    execStmt setting call context (.forEach target iterable body loc) env = (do
      let type ← evalExpr setting call iterable env
      if type.isBottom then pure (some env)
      else
        let element ←
          callFunction setting call "getindex" [type, Ty.int] { callee := "getindex", loc := loc }
        if element.isBottom then pure (some env)
        else (Loop.forEach target element body).run setting call context env) := by
  rw [execStmt]
  rfl

end Multimethod.Inference
