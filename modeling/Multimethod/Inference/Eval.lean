import Multimethod.Inference.Call
import Multimethod.Inference.Field

/-!
# Evaluating expressions

Every part of an expression is evaluated even when an earlier one fails, so that one
diagnostic never hides another. A call with an argument that has no value is never reached
and makes no frame.
-/

namespace Multimethod.Inference

open Dispatch Multimethod.Lattice

/-- Reads a name: a binding, else a declared type, else a generic function. -/
def evalName (setting : Setting) (env : Environment) (name : String) (loc : Location) :
    Walk Ty :=
  match env.lookup name with
  | some binding => pure binding.type
  | none =>
      match setting.hierarchy.typeOf? name with
      | some type => pure (Ty.typeOf type)
      | none =>
          if setting.table.has name then pure Ty.function
          else do
            report [Diagnostic.unbound name loc]
            pure .bottom

/-- How a called name is resolved. -/
inductive CallRoute where
  /-- The value of a binding is called. -/
  | value (type : Ty)
  /-- The generic function, or the constructor, of that name is called. -/
  | generic
  /-- Nothing has that name. -/
  | undefined

/-- A name of the method itself shadows a generic function, which shadows a global. A declared
    type calls its constructor. -/
def callRoute (setting : Setting) (env : Environment) (callee : String) : CallRoute :=
  match env.lookupLocal callee with
  | some binding => .value binding.type
  | none =>
      if setting.table.has callee then .generic
      else
        match env.lookup callee with
        | some binding => .value binding.type
        | none => if setting.hierarchy.has callee then .generic else .undefined

/-- Calls the value of a name. A type calls its constructor; a function, or a value of which
    nothing is known, may return anything. -/
def callValue (setting : Setting) (call : Caller) (callee : String) (value : Ty)
    (args : List Ty) (loc : Location) : Walk Ty :=
  let misuse : Walk Ty := do
    report [Diagnostic.builtinMisuse (renderCall callee none args)
      s!"{callee}::{value.render} is not callable" loc]
    pure .bottom
  match value with
  | .any => pure .any
  | .concrete "Function" _ => pure .any
  | .concrete "Type" (.concrete name _ :: _) =>
      if setting.table.has name then
        callFunction setting call name args { callee := name, loc := loc }
      else misuse
  | _ => misuse

/-- Calls a name with evaluated arguments. -/
def resolveCall (setting : Setting) (call : Caller) (callee : String) (loc : Location)
    (args : List Ty) (env : Environment) : Walk Ty :=
  match callRoute setting env callee with
  | .value type => callValue setting call callee type args loc
  | .generic => callFunction setting call callee args { callee := callee, loc := loc }
  | .undefined => do
      report [Diagnostic.unbound callee loc]
      pure .bottom

/-- Reports a condition that can never be a truth value. -/
def checkCondition (setting : Setting) (type : Ty) (loc : Location) : Walk Unit :=
  if !type.isBottom && !overlaps setting.hierarchy type Ty.bool then
    report [Diagnostic.nonBoolean type loc]
  else pure ()

mutual

/-- The type of an expression. -/
def evalExpr (setting : Setting) (call : Caller) (expr : Expr) (env : Environment) :
    Walk Ty :=
  match expr with
  | .literal type _ _ => pure type
  | .name name loc => evalName setting env name loc
  | .call callee args loc => do
      let types ← evalAll setting call args env
      if types.any Ty.isBottom then pure .bottom
      else resolveCall setting call callee loc types env
  | .field object field loc => do
      let type ← evalExpr setting call object env
      if type.isBottom then pure .bottom
      else do
        let site : CallSite := { callee := "getfield", loc := loc, field := some field }
        let frames := getFieldFrames setting.hierarchy site type
        attach frames
        pure (joinReturns setting.hierarchy frames)
  | .isa subject _ _ => do
      let type ← evalExpr setting call subject env
      pure (if type.isBottom then .bottom else Ty.bool)
  | .logical op left right _ => do
      let type ← evalExpr setting call left env
      checkCondition setting type left.loc
      if type.isBottom then pure .bottom
      else
        match env.narrow setting.hierarchy left (op == .and) with
        | none => pure Ty.bool
        | some rightEnv => do
            let rightType ← evalExpr setting call right rightEnv
            checkCondition setting rightType right.loc
            pure (join setting.hierarchy Ty.bool rightType)
  | .conditional test consequent alternate _ => do
      let type ← evalExpr setting call test env
      checkCondition setting type test.loc
      let first ←
        match env.narrow setting.hierarchy test true with
        | some thenEnv => evalExpr setting call consequent thenEnv
        | none => pure .bottom
      let second ←
        match env.narrow setting.hierarchy test false with
        | some elseEnv => evalExpr setting call alternate elseEnv
        | none => pure .bottom
      pure (join setting.hierarchy first second)
  | .vector elements _ => do
      let types ← evalAll setting call elements env
      pure <|
        if types.any Ty.isBottom then .bottom
        else if types.isEmpty then Ty.vector .any
        else Ty.vector (joinAll setting.hierarchy types)

/-- The types of expressions, evaluated in order. -/
def evalAll (setting : Setting) (call : Caller) (exprs : List Expr) (env : Environment) :
    Walk (List Ty) :=
  match exprs with
  | [] => pure []
  | expr :: exprs => do
      let type ← evalExpr setting call expr env
      let types ← evalAll setting call exprs env
      pure (type :: types)

end

/-- The type of a condition; one that is never a truth value is reported. -/
def evalCondition (setting : Setting) (call : Caller) (expr : Expr) (env : Environment) :
    Walk Ty := do
  let type ← evalExpr setting call expr env
  checkCondition setting type expr.loc
  pure type

end Multimethod.Inference
