import Multimethod.Location
import Multimethod.Ty.Basic

/-!
# Expressions and statements

The core language that the analysis reads. Operators, indexing and constructors are calls of
generic functions; a lowered loop keeps the update clause apart, since it also runs after a
`continue`.
-/

namespace Multimethod

/-- The two short-circuit operators. -/
inductive LogicalOp where
  | and
  | or
  deriving DecidableEq, Repr

/-- An expression. -/
inductive Expr where
  /-- A literal of a known type, with its value if it is a truth value. -/
  | literal (type : Ty) (value : Option Bool) (loc : Location)
  | name (name : String) (loc : Location)
  /-- A call of a generic function by name. -/
  | call (callee : String) (args : List Expr) (loc : Location)
  | field (object : Expr) (field : String) (loc : Location)
  /-- The test whether `subject` is a `test`. -/
  | isa (subject : Expr) (test : Ty) (loc : Location)
  | logical (op : LogicalOp) (left right : Expr) (loc : Location)
  | conditional (test consequent alternate : Expr) (loc : Location)
  | vector (elements : List Expr) (loc : Location)
  deriving Inhabited

/-- Where an expression stands. -/
def Expr.loc : Expr → Location
  | literal _ _ loc => loc
  | name _ loc => loc
  | call _ _ loc => loc
  | field _ _ loc => loc
  | isa _ _ loc => loc
  | logical _ _ _ loc => loc
  | conditional _ _ _ loc => loc
  | vector _ loc => loc

/-- The two ways to leave a loop body early. -/
inductive Jump where
  | leave
  | next
  deriving DecidableEq, Repr

/-- The word that is written for a jump. -/
def Jump.keyword : Jump → String
  | leave => "break"
  | next => "continue"

/-- A statement. -/
inductive Stmt where
  /-- Assigns a variable, converting the value when a type is declared. -/
  | assign (target : String) (value : Expr) (declared : Option Ty) (loc : Location)
  | fieldAssign (object : Expr) (field : String) (value : Expr) (loc : Location)
  | expr (expr : Expr) (loc : Location)
  | ret (value : Option Expr) (loc : Location)
  | raise (value : Expr) (loc : Location)
  | branch (test : Expr) (consequent alternate : List Stmt) (loc : Location)
  /-- A loop; `update` runs after the body and after a `continue`. -/
  | loop (test : Expr) (body update : List Stmt) (loc : Location)
  | forEach (target : String) (iterable : Expr) (body : List Stmt) (loc : Location)
  | jump (jump : Jump) (loc : Location)
  deriving Inhabited

end Multimethod
