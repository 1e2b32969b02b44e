import Multimethod.Fault
import Multimethod.Ty.Variables

/-!
# The hierarchy of declared types

Every declared type has one supertype, which is abstract and was declared before it; `Any` is
the root. Declarations are kept newest first, so that the ancestors of a name are found by one
walk down the list: a supertype always stands further down.
-/

namespace Multimethod

/-- How the instances of a parametric type compare in one parameter. -/
inductive Variance where
  | covariant
  | invariant
  deriving DecidableEq, Repr

/-- A declared parameter of a type. -/
structure TypeParam where
  name : String
  variance : Variance
  bound : Ty

/-- A declared type. The supertype is absent only for `Any`. A type without a field table,
    such as a builtin container, has no fields to read. -/
structure TypeDecl where
  name : String
  isAbstract : Bool
  supertype : Option String
  params : List TypeParam
  fields : Option (Assoc Ty)
  loc : Option Location

namespace TypeDecl

/-- The declaration of the root. -/
def any : TypeDecl where
  name := "Any"
  isAbstract := true
  supertype := none
  params := []
  fields := none
  loc := none

/-- The type that the bare name of a declaration denotes. -/
def toTy (decl : TypeDecl) : Ty :=
  if decl.name = "Any" then .any
  else if decl.isAbstract then .abstract decl.name
  else .concrete decl.name []

end TypeDecl

/-- The declared types, newest first. -/
structure Hierarchy where
  decls : List TypeDecl

namespace Hierarchy

/-- The hierarchy in which only `Any` is declared. -/
def initial : Hierarchy := ⟨[TypeDecl.any]⟩

/-- The declaration of `name`. -/
def find? (h : Hierarchy) (name : String) : Option TypeDecl :=
  h.decls.find? (·.name == name)

/-- Whether `name` is declared. -/
def has (h : Hierarchy) (name : String) : Bool :=
  (h.find? name).isSome

/-- Adds a declaration. The name must be new and its supertype declared and abstract; a
    declaration without a supertype is put below `Any`. -/
def declare (h : Hierarchy) (decl : TypeDecl) : Checked Hierarchy :=
  let above := decl.supertype.getD "Any"
  if h.has decl.name then
    .error (.malformed (.alreadyDeclared decl.name) decl.loc)
  else
    match h.find? above with
    | none => .error (.malformed (.unknownSupertype above decl.name) decl.loc)
    | some parent =>
        if parent.isAbstract then
          .ok ⟨{ decl with supertype := some above } :: h.decls⟩
        else
          .error (.malformed (.concreteSupertype decl.name above) decl.loc)

/-- Adds declarations one after the other. -/
def declareAll (h : Hierarchy) (decls : List TypeDecl) : Checked Hierarchy :=
  decls.foldlM declare h

/-- Gives the declaration of the same name the fields of `decl`. -/
def withFieldsOf (h : Hierarchy) (decl : TypeDecl) : Hierarchy :=
  ⟨h.decls.map fun d => if d.name = decl.name then { d with fields := decl.fields } else d⟩

/-- The type that a bare name denotes. -/
def typeOf? (h : Hierarchy) (name : String) : Option Ty :=
  (h.find? name).map TypeDecl.toTy

/-- The names from `name` up to the root, read off declarations that stand newest first. -/
def chain : List TypeDecl → String → List String
  | [], name => [name]
  | decl :: older, name =>
      if decl.name = name then
        name :: (match decl.supertype with
          | some above => chain older above
          | none => [])
      else chain older name

/-- The names from `name` up to `Any`, both included. -/
def ancestors (h : Hierarchy) (name : String) : List String :=
  chain h.decls name

/-- Whether `ancestor` is `name` or stands above it. -/
def isAncestor (h : Hierarchy) (ancestor name : String) : Bool :=
  (h.ancestors name).contains ancestor

/-- The concrete types below `name`, read off declarations that stand oldest first. -/
def leavesBelow : List TypeDecl → String → List TypeDecl
  | [], _ => []
  | decl :: newer, name =>
      if decl.supertype = some name then
        (if decl.isAbstract then leavesBelow newer decl.name else [decl])
          ++ leavesBelow newer name
      else leavesBelow newer name

/-- The concrete types below `name`: those under each child before those under the next, the
    children in declaration order. -/
def concreteDescendants (h : Hierarchy) (name : String) : List TypeDecl :=
  leavesBelow h.decls.reverse name

/-- The declared parameters of a type; none for an unknown name. -/
def paramsOf (h : Hierarchy) (name : String) : List TypeParam :=
  match h.find? name with
  | some decl => decl.params
  | none => []

/-- Whether every declared parameter of a type is covariant. -/
def allCovariant (h : Hierarchy) (name : String) : Bool :=
  (h.paramsOf name).all (·.variance == .covariant)

/-- Binds the parameters of a declaration to arguments; a parameter without an argument is
    bound to its bound. -/
def bindParams : List TypeParam → List Ty → Assoc Ty → Assoc Ty
  | [], _, bindings => bindings
  | p :: ps, [], bindings => bindParams ps [] (bindings.insert p.name p.bound)
  | p :: ps, arg :: args, bindings => bindParams ps args (bindings.insert p.name arg)

/-- The declared type of a field of `name`, with the type arguments applied. -/
def fieldType? (h : Hierarchy) (name : String) (args : List Ty) (field : String) : Option Ty :=
  match h.find? name with
  | none => none
  | some decl =>
      match decl.fields with
      | none => none
      | some fields =>
          (fields.find? field).map (·.substitute (bindParams decl.params args []))

end Hierarchy

end Multimethod
