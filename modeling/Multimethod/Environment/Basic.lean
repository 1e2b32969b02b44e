import Multimethod.Lattice.Widening

/-!
# Environments

The types that names hold at one point of a program. The scope of a method body stands inside
the global scope; an update touches the innermost scope only.
-/

namespace Multimethod

/-- How a name came to be bound. -/
inductive BindingKind where
  | assigned
  | param
  | typeVar
  | global
  deriving DecidableEq, Repr

/-- What a name holds, and the type it was declared with, if any. -/
structure Binding where
  type : Ty
  declared : Option Ty
  kind : BindingKind

/-- The two kinds of scopes. -/
inductive ScopeKind where
  | global
  | method
  deriving DecidableEq, Repr

/-- The bindings of a scope inside its parent scope. -/
structure Environment where
  bindings : Assoc Binding
  parent : Option Environment
  kind : ScopeKind

/-- The environment after a statement, or nothing where control cannot get to. -/
abbrev Flow := Option Environment

namespace Environment

/-- A scope without bindings. -/
def create (parent : Option Environment) (kind : ScopeKind) : Environment :=
  ⟨[], parent, kind⟩

/-- The binding of a name in the nearest scope that has one. -/
def lookup : Environment → String → Option Binding
  | ⟨bindings, parent, _⟩, name =>
      match bindings.find? name with
      | some binding => some binding
      | none =>
          match parent with
          | some outer => outer.lookup name
          | none => none

/-- The binding of a name in the scope of a method body itself. -/
def lookupLocal (env : Environment) (name : String) : Option Binding :=
  match env.kind with
  | .method => env.bindings.find? name
  | .global => none

/-- Sets the type of a name in the innermost scope. Kind and declared type of a name that is
    bound there stay. -/
def update (env : Environment) (name : String) (type : Ty) (kind : BindingKind)
    (declared : Option Ty) : Environment :=
  let existing := env.bindings.find? name
  let binding : Binding :=
    { type
      declared := (existing.bind (·.declared)).or declared
      kind := (existing.map (·.kind)).getD kind }
  { env with bindings := env.bindings.insert name binding }

/-- The type of a name in the innermost scope. -/
def typeHere? (env : Environment) (name : String) : Option Ty :=
  (env.bindings.find? name).map (·.type)

/-- Whether a name holds in the innermost scope a type with the id of `type`. -/
def holds (env : Environment) (name : String) (type : Ty) : Bool :=
  match env.typeHere? name with
  | some held => held.same type
  | none => false

/-- Whether two scopes bind the same names to the same types. -/
def sameTypes (a b : Environment) : Bool :=
  a.bindings.length == b.bindings.length
    && a.bindings.all fun entry => b.holds entry.1 entry.2.type

end Environment

end Multimethod
