import Multimethod.Hierarchy
import Multimethod.Program.Expr

/-!
# Methods and programs

A generic function is the collection of the methods of one name. A program consists of type
declarations, methods, global bindings and the toplevel calls from which the analysis starts.
-/

namespace Multimethod

/-- A parameter of a method. -/
structure Param where
  name : String
  type : Ty

/-- A variable of a where-clause with its upper bound. -/
structure TypeVar where
  name : String
  bound : Ty

/-- The type that a where-clause variable denotes. -/
def TypeVar.toTy (v : TypeVar) : Ty := .typeVar v.name v.bound

/-- The methods whose meaning is built into the analysis. -/
inductive Intrinsic where
  | construct
  | convert
  deriving DecidableEq, Repr

/-- One method of a generic function. A method without a body returns its declared type. -/
structure Method where
  name : String
  params : List Param
  typeParams : List TypeVar
  returns : Option Ty
  body : Option (List Stmt)
  intrinsic : Option Intrinsic
  loc : Location

/-- A global variable and the type of its initial value. -/
structure GlobalBinding where
  name : String
  type : Ty
  loc : Location

/-- A call from which the analysis starts. -/
structure EntryCall where
  callee : String
  args : List Expr
  loc : Location

/-- The entry call as an expression. -/
def EntryCall.toExpr (entry : EntryCall) : Expr := .call entry.callee entry.args entry.loc

/-- A source unit in the core language. -/
structure Program where
  file : String
  types : List TypeDecl
  methods : List Method
  globals : List GlobalBinding
  entries : List EntryCall

end Multimethod
