import Multimethod.Inference.Construction
import Multimethod.Inference.Exec

/-!
# Dispatch cases

One pass over a dispatch case looks the call up and runs every method that may be meant, all
on one frame.
-/

namespace Multimethod.Inference

open Dispatch Multimethod.Lattice

/-- The scope of a method body: where-clause variables hold the types they are bound to, and
    parameters their arguments, narrowed by the declared types. -/
def methodEnvironment (setting : Setting) (found : Match) (args : List Ty) : Environment :=
  let method := found.method
  let vars := method.typeParams.foldl
    (fun env v =>
      let bound := (found.bindings.find? v.name).getD v.bound
      env.update v.name (Ty.typeOf bound) .typeVar none)
    (Environment.create (some setting.globals) .method)
  (method.params.zip (args ++ List.replicate method.params.length .any)).foldl
    (fun env (param, arg) =>
      let declared := (param.type.substitute found.bindings).erase
      env.update param.name (meet setting.hierarchy arg declared) .param none)
    vars

/-- The declared return type of a matched method. -/
def declaredReturn (found : Match) : Option Ty :=
  found.method.returns.map fun type => (type.substitute found.bindings).erase

/-- Runs the body of a method and tells what it returns. Control that gets to the end returns
    nothing. -/
def runBody (setting : Setting) (call : Caller) (found : Match) (args : List Ty)
    (stmts : List Stmt) : Walk Ty := do
  modify fun body => { body with returns := .bottom, breaks := [], continues := [] }
  let context : BodyContext := ⟨declaredReturn found, false⟩
  match ← execBlock setting call context stmts (methodEnvironment setting found args) with
  | some _ => addReturn setting context Ty.nothing found.method.loc
  | none => pure ()
  pure (← get).returns

/-- Runs one matched method. -/
def invoke (setting : Setting) (call : Caller) (site : CallSite) (found : Match)
    (args : List Ty) : Walk Ty :=
  let method := found.method
  match method.intrinsic with
  | some .construct => do
      let (type, errors) := constructInstance setting.hierarchy site method.name args
      report errors
      pure type
  | some .convert => do
      let (type, errors) := convertIntrinsic setting.hierarchy site args
      report errors
      pure type
  | none =>
      match method.body with
      | none => pure ((declaredReturn found).getD .any)
      | some stmts => runBody setting call found args stmts

/-- Runs matched methods in order and joins what they return. -/
def invokeAll (setting : Setting) (call : Caller) (site : CallSite) (args : List Ty) :
    List Match → Ty → Walk Ty
  | [], result => pure result
  | found :: rest, result => do
      let type ← invoke setting call site found args
      invokeAll setting call site args rest (join setting.hierarchy result type)

/-- Whether a matched method is built into the analysis. -/
def Match.isIntrinsic (found : Match) : Bool :=
  found.method.intrinsic.isSome

/-- One pass over a dispatch case. -/
def dispatchPass (setting : Setting) (call : Caller) (callee : String) (args : List Ty)
    (site : CallSite) : Infer Frame :=
  match lookup setting.hierarchy setting.table callee args with
  | .noMethod => pure (noMethodFrame site args)
  | .ambiguous candidates => pure (ambiguousFrame site args candidates)
  | .matched found => do
      let (ret, body) ← (invokeAll setting call site args found .bottom).run Body.start
      pure
        { site := site
          args := args
          ret := ret
          status := .resolved
          origin := if found.any Match.isIntrinsic then .intrinsic else .interpreted
          errors := body.errors
          children := body.children }

end Multimethod.Inference
