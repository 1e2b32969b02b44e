import Multimethod.Lattice.Bounds
import Multimethod.Program.Method

/-!
# Matching a method against argument types

A method applies fully when every value of the arguments fits its parameters, and partially
when some may. Matching binds the variables of the where-clause from left to right.
-/

namespace Multimethod.Dispatch

open Multimethod.Lattice

/-- How well parameters cover argument types. -/
inductive Applicability where
  | full
  | partly
  | none
  deriving DecidableEq, Repr

/-- The applicability of two parameters together: the worse one. -/
def Applicability.both : Applicability → Applicability → Applicability
  | none, _ => none
  | _, none => none
  | partly, _ => partly
  | _, partly => partly
  | full, full => full

/-- The applicability of a parameter type without free variables. -/
def applicabilityOf (h : Hierarchy) (param arg : Ty) : Applicability :=
  if isSubtype h arg param then .full
  else if overlaps h arg param then .partly
  else .none

/-- Matches an argument against a where-clause variable: the first mention binds it, a later
    one must agree. -/
def matchVar (h : Hierarchy) (name : String) (bound arg : Ty) (bindings : Assoc Ty) :
    Applicability × Assoc Ty :=
  match bindings.find? name with
  | none =>
      let narrowed := meet h arg bound
      if narrowed.isBottom then (.none, bindings)
      else
        (if isSubtype h arg bound then .full else .partly, bindings.insert name narrowed)
  | some existing =>
      if equivalent h existing arg then (.full, bindings)
      else
        let narrowed := meet h existing arg
        if narrowed.isBottom then (.none, bindings)
        else (.partly, bindings.insert name narrowed)

mutual

/-- Matches one argument type against a parameter type. -/
def matchParam (h : Hierarchy) (param arg : Ty) (bindings : Assoc Ty) :
    Applicability × Assoc Ty :=
  if !param.hasVars then (applicabilityOf h param arg, bindings)
  else
    match param with
    | .typeVar name bound => matchVar h name bound arg bindings
    | .concrete name params =>
        match arg with
        | .concrete other args =>
            if other == name && args.length == params.length then
              matchArgs h params args bindings
            else (applicabilityOf h (Ty.erase (.concrete name params)) arg, bindings)
        | arg => (applicabilityOf h (Ty.erase (.concrete name params)) arg, bindings)
    | param => (applicabilityOf h param.erase arg, bindings)

/-- Matches type arguments position by position; all positions are matched, also behind one
    that fails. -/
def matchArgs (h : Hierarchy) (params args : List Ty) (bindings : Assoc Ty) :
    Applicability × Assoc Ty :=
  match params, args with
  | param :: params, arg :: args =>
      let (first, bindings) := matchParam h param arg bindings
      let (rest, bindings) := matchArgs h params args bindings
      (first.both rest, bindings)
  | _, _ => (.full, bindings)

end

/-- A method that applies to the arguments of a call. -/
structure Match where
  method : Method
  bindings : Assoc Ty
  applicability : Applicability

/-- Matches the arguments of a call against the parameters of a method. -/
def matchMethod (h : Hierarchy) (method : Method) (args : List Ty) : Option Match :=
  if method.params.length ≠ args.length then none
  else
    match matchArgs h (method.params.map (·.type)) args [] with
    | (.none, _) => none
    | (applicability, bindings) => some ⟨method, bindings, applicability⟩

end Multimethod.Dispatch
