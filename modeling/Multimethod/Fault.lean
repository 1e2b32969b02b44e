import Multimethod.Location

/-!
# Faults

A fault is a failure of the tool itself, as opposed to a diagnostic about the analysed
program. Malformed input aborts the run; a resource limit aborts one entry call. Faults are
kept as causes, and `Fault.message` is the only place that words them.
-/

namespace Multimethod

/-- What makes an input malformed. -/
inductive Cause where
  | syntaxError
  | alreadyDeclared (name : String)
  | unknownSupertype (supertype name : String)
  | concreteSupertype (name supertype : String)
  | supertypeNotName
  | supertypeArguments (name : String)
  | abstractParameters (name : String)
  | abstractFields (name : String)
  | memberNotField (name : String)
  | fieldInitializer (name field : String)
  | duplicateField (name field : String)
  | aliasParameters (name : String)
  | asyncOrGenerator (name : String)
  | unsupportedParameter (construct function : String)
  | globalShape
  | globalNotLiteral (name : String)
  | entryNotCall
  | unsupportedToplevel (construct : String)
  | unsupportedStatement (construct : String)
  | unsupportedExpression (construct : String)
  | unsupportedArgument (construct : String)
  | unsupportedOperator (operator : String)
  | unsupportedAssignmentOperator (operator : String)
  | unsupportedAssignmentTarget (construct : String)
  | unsupportedType (construct : String) (hint : Option String)
  | loopBinding
  | labeledJump
  | destructuring
  | missingInitializer (name : String)
  | incrementTarget
  | interpolation
  | privateName
  | unnamedCallee
  | vectorShape
  | typeTestNotName
  | qualifiedTypeName
  | typeVarArguments (name : String)
  | aliasArguments (name : String)
  | abstractArguments (name : String)
  | unknownType (name : String)
  | argumentCount (name : String) (expected actual : Nat)
  | typeExpression (source : String)
  | preludeEntry (path expected : String)
  | strayJump (keyword : String)
  deriving DecidableEq, Repr

/-- The resource whose limit was hit. -/
inductive Resource where
  | cacheEntries
  | callDepth
  deriving DecidableEq, Repr

/-- A failure of the tool itself. -/
inductive Fault where
  /-- The input cannot be analysed. -/
  | malformed (cause : Cause) (loc : Option Location)
  /-- An entry call needs more than `max` of a resource, or any of it if `max` is below zero. -/
  | limit (resource : Resource) (max : Int)
  /-- A method was registered after the table was sealed. -/
  | tableSealed (method : String)
  /-- A cache entry was sealed twice. -/
  | entrySealed (key : String)
  deriving DecidableEq, Repr

/-- The wording of a cause, without its location. -/
def Cause.message : Cause → String
  | syntaxError => "<syntax error>"
  | alreadyDeclared name => s!"type {name} is already declared"
  | unknownSupertype supertype name => s!"unknown supertype {supertype} of {name}"
  | concreteSupertype name supertype => s!"{name} cannot subtype concrete type {supertype}"
  | supertypeNotName => "supertype must be a type name"
  | supertypeArguments name => s!"supertype of {name} cannot take arguments"
  | abstractParameters name => s!"abstract type {name} cannot take parameters"
  | abstractFields name => s!"abstract type {name} cannot declare fields"
  | memberNotField name => s!"{name} may only declare fields"
  | fieldInitializer name field => s!"field {name}.{field} cannot have an initializer"
  | duplicateField name field => s!"duplicate field {name}.{field}"
  | aliasParameters name => s!"type alias {name} cannot take parameters"
  | asyncOrGenerator name => s!"{name} cannot be async or a generator"
  | unsupportedParameter construct function => s!"unsupported parameter {construct} in {function}"
  | globalShape => "globals must be named and initialized"
  | globalNotLiteral name => s!"global {name} must be initialized with a literal"
  | entryNotCall => "toplevel expressions must be calls"
  | unsupportedToplevel construct => s!"unsupported toplevel statement {construct}"
  | unsupportedStatement construct => s!"unsupported statement {construct}"
  | unsupportedExpression construct => s!"unsupported expression {construct}"
  | unsupportedArgument construct => s!"unsupported argument {construct}"
  | unsupportedOperator operator => s!"unsupported operator {operator}"
  | unsupportedAssignmentOperator operator => s!"unsupported assignment operator {operator}"
  | unsupportedAssignmentTarget construct => s!"unsupported assignment target {construct}"
  | unsupportedType construct (some hint) => s!"unsupported type {construct}; use {hint}"
  | unsupportedType construct none => s!"unsupported type syntax {construct}"
  | loopBinding => "for-of must bind a single name"
  | labeledJump => "labeled jumps are not supported"
  | destructuring => "destructuring is not supported"
  | missingInitializer name => s!"variable {name} needs an initializer"
  | incrementTarget => "increments apply to variables only"
  | interpolation => "template literals cannot interpolate; use string()"
  | privateName => "private names are not supported"
  | unnamedCallee => "only named functions can be called"
  | vectorShape => "vector literals cannot have holes or spreads"
  | typeTestNotName => "instanceof needs a type name"
  | qualifiedTypeName => "qualified type names are not supported"
  | typeVarArguments name => s!"type variable {name} takes no arguments"
  | aliasArguments name => s!"type alias {name} takes no arguments"
  | abstractArguments name => s!"abstract type {name} takes no arguments"
  | unknownType name => s!"unknown type {name}"
  | argumentCount name expected actual =>
      s!"type {name} expects {expected} argument(s), got {actual}"
  | typeExpression source => s!"invalid type expression '{source}'"
  | preludeEntry path expected => s!"prelude: {path} must be {expected}"
  | strayJump keyword => s!"{keyword} outside a loop"

/-- The wording of a fault; a located one starts with its location. -/
def Fault.message : Fault → String
  | malformed cause (some loc) => s!"{loc.text}: {cause.message}"
  | malformed cause none => cause.message
  | limit .cacheEntries max => s!"inference cache exceeded {max} entries"
  | limit .callDepth max => s!"call depth exceeded {max} frames"
  | tableSealed method => s!"method table is sealed; cannot register {method}"
  | entrySealed key => s!"cache entry {key} is already sealed"

/-- Results that may fail with a fault. -/
abbrev Checked := Except Fault

/-- Fails at `loc`. -/
def malformed {α : Type} (cause : Cause) (loc : Location) : Checked α :=
  .error (.malformed cause (some loc))

end Multimethod
