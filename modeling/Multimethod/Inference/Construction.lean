import Multimethod.Inference.Conversion

/-!
# Construction

The default constructor of a struct converts each argument to its field. The parameters of
the struct are bound from the arguments; an instance one of whose parameters stays unbound is
the bare type.
-/

namespace Multimethod.Inference

open Multimethod.Lattice

mutual

/-- Binds the variables of a declared type from an actual type. A variable met twice is bound
    to the join of both. -/
def bindVars (h : Hierarchy) (declared actual : Ty) (bindings : Assoc Ty) : Assoc Ty :=
  match declared with
  | .typeVar name _ =>
      match bindings.find? name with
      | some existing => bindings.insert name (join h existing actual)
      | none => bindings.insert name actual
  | .concrete name params =>
      match actual with
      | .concrete other args =>
          if name == other && params.length == args.length then
            bindAllVars h params args bindings
          else bindings
      | _ => bindings
  | _ => bindings

/-- Binds the variables of declared types from actual types, position by position. -/
def bindAllVars (h : Hierarchy) (declared actual : List Ty) (bindings : Assoc Ty) :
    Assoc Ty :=
  match declared, actual with
  | d :: ds, a :: as => bindAllVars h ds as (bindVars h d a bindings)
  | _, _ => bindings

end

/-- The diagnostics of bound parameters that do not lie below their bounds. -/
def boundErrors (h : Hierarchy) (params : List TypeParam) (bindings : Assoc Ty)
    (call : String) (loc : Location) : List Diagnostic :=
  params.filterMap fun param =>
    match bindings.find? param.name with
    | some bound =>
        if isSubtype h bound param.bound then none
        else some (Diagnostic.noConversion bound param.bound call loc)
    | none => none

/-- The diagnostics of the first argument that does not convert to its field, or nothing when
    all convert. An argument that converts to no value fails without a diagnostic. -/
def argumentErrors (h : Hierarchy) (bindings : Assoc Ty) (call : String) (loc : Location) :
    List Ty → List Ty → Option (List Diagnostic)
  | field :: fields, arg :: args =>
      let (converted, errors) := convertChecked h arg (field.substitute bindings) call loc
      if converted.isBottom then some errors
      else argumentErrors h bindings call loc fields args
  | _, _ => none

/-- The instance of `name` whose parameters are bound as given. -/
def instanceOf (name : String) (params : List TypeParam) (bindings : Assoc Ty) : Ty :=
  let bound := params.map fun param => bindings.find? param.name
  if bound.all Option.isSome then .concrete name (bound.filterMap fun t => t)
  else .concrete name []

/-- The type of `name(args)` by the default constructor, with the diagnostics of the call. -/
def constructInstance (h : Hierarchy) (site : CallSite) (name : String) (args : List Ty) :
    Ty × List Diagnostic :=
  let call := site.render args
  match h.find? name with
  | some ⟨_, _, _, params, some fields, _⟩ =>
      let types := fields.map (·.2)
      let bindings := bindAllVars h types args []
      match boundErrors h params bindings call site.loc with
      | [] =>
          match argumentErrors h bindings call site.loc types args with
          | some errors => (.bottom, errors)
          | none => (instanceOf name params bindings, [])
      | errors => (.bottom, errors)
  | _ =>
      (.bottom, [Diagnostic.builtinMisuse call s!"{name} has no default constructor" site.loc])

end Multimethod.Inference
