import Multimethod.Frame

/-!
# Wording of diagnostics

One function per way in which a call of the analysed program can fail.
-/

namespace Multimethod.Diagnostic

/-- A name that nothing binds. -/
def unbound (name : String) (loc : Location) : Diagnostic where
  kind := .undefinedBinding
  message := s!"{name} not defined"
  call := name
  loc := loc

/-- A call to which no method applies. -/
def noMethod (site : CallSite) (args : List Ty) : Diagnostic where
  kind := .noMatchingMethod
  message := "no method matching " ++ site.render args
  call := site.render args
  loc := site.loc

/-- A call between whose methods dispatch cannot decide. -/
def ambiguous (site : CallSite) (args : List Ty) (candidates : List Method) : Diagnostic where
  kind := .ambiguousMethod
  message :=
    site.render args ++ " is ambiguous; candidates: "
      ++ "; ".intercalate (candidates.map Method.renderPlaced)
  call := site.render args
  loc := site.loc

/-- The access of a field that a struct, or every struct below an abstract type, lacks. -/
def noField (site : CallSite) (args : List Ty) (object : Ty) : Diagnostic where
  kind := .invalidFieldAccess
  message :=
    let field := site.field.getD ""
    match object with
    | .abstract _ => s!"no subtype of {object.render} has field {field}"
    | _ => s!"type {object.render} has no field {field}"
  call := site.render args
  loc := site.loc

/-- A use of a builtin that it does not allow. -/
def builtinMisuse (call message : String) (loc : Location) : Diagnostic where
  kind := .invalidBuiltinCall
  message := message
  call := call
  loc := loc

/-- A value none of which converts to the type it should have. -/
def noConversion (source target : Ty) (call : String) (loc : Location) : Diagnostic where
  kind := .typeConversionFailure
  message := s!"cannot convert {source.render} to {target.render}"
  call := call
  loc := loc

/-- A condition that is never a truth value. -/
def nonBoolean (type : Ty) (loc : Location) : Diagnostic where
  kind := .typeConversionFailure
  message := s!"non-boolean ({type.render}) used in boolean context"
  call := s!"Bool(::{type.render})"
  loc := loc

end Multimethod.Diagnostic
