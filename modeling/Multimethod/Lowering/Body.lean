import Multimethod.Lowering.Scope
import Multimethod.Program.Expr

/-!
# Bodies

Expressions and statements of the core language for those of a source unit. Operators and
indexing become calls of generic functions, counting loops become plain ones, and whatever has
no meaning is refused where it stands.
-/

namespace Multimethod.Lowering

open Surface

/-! ## Expressions -/

/-- The generic function that a binary operator calls. -/
def binaryCallee : String → Option String
  | "**" => some "^"
  | "===" => some "=="
  | "!==" => some "!="
  | op =>
      if ["+", "-", "*", "/", "%", "<", "<=", ">", ">=", "==", "!="].contains op then some op
      else none

/-- The generic function that an assignment with an operator calls. -/
def compoundCallee : String → Option String
  | "+=" => some "+"
  | "-=" => some "-"
  | "*=" => some "*"
  | "/=" => some "/"
  | "%=" => some "%"
  | "**=" => some "^"
  | _ => none

/-- A number. -/
def numberLiteral (s : Scope) (isWhole : Bool) (start : Position) : Multimethod.Expr :=
  .literal (if isWhole then Ty.int else Ty.float) none (s.locate start)

/-- The type that an instance test names. -/
def lowerTest (s : Scope) (e : Surface.Expr) : Checked Ty :=
  match e.bare with
  | .name name start =>
      match s.typeVars.find? name with
      | some bound => .ok (.typeVar name bound)
      | none =>
          match s.aliases.find? name with
          | some type => .ok type
          | none => resolveName s.hierarchy name [] (s.locate start)
  | e => s.fail .typeTestNotName e.start

mutual

/-- The meaning of an expression. -/
def lowerExpr (s : Scope) : Surface.Expr → Checked Multimethod.Expr
  | .number isWhole start => .ok (numberLiteral s isWhole start)
  | .string _ start => .ok (.literal Ty.string none (s.locate start))
  | .template [] start => .ok (.literal Ty.string none (s.locate start))
  | .template _ start => s.fail .interpolation start
  | .bool value start => .ok (.literal Ty.bool (some value) (s.locate start))
  | .null start => .ok (.literal Ty.nothing none (s.locate start))
  | .name name start => .ok (.name name (s.locate start))
  | .parens inner => lowerExpr s inner
  | .binary _ (.privateName _ _) _ start => s.fail .privateName start
  | .binary "instanceof" subject test start => do
      let subject ← lowerExpr s subject
      return .isa subject (← lowerTest s test) (s.locate start)
  | .binary op left right start =>
      match binaryCallee op with
      | none => s.fail (.unsupportedOperator op) start
      | some callee => do
          let left ← lowerExpr s left
          return .call callee [left, ← lowerExpr s right] (s.locate start)
  | .unary op operand start =>
      match op, operand.bare with
      | "-", .number isWhole p => .ok (numberLiteral s isWhole p)
      | _, _ => do
          if op == "-" || op == "!" then
            return .call op [← lowerExpr s operand] (s.locate start)
          else s.fail (.unsupportedOperator op) start
  | .logical op left right start => do
      if op == "??" then s.fail (.unsupportedOperator op) start
      else
        let left ← lowerExpr s left
        let right ← lowerExpr s right
        return .logical (if op == "&&" then .and else .or) left right (s.locate start)
  | .conditional test consequent alternate start => do
      let test ← lowerExpr s test
      let consequent ← lowerExpr s consequent
      return .conditional test consequent (← lowerExpr s alternate) (s.locate start)
  | .call callee args start | .creation callee args start =>
      match callee.bare with
      | .name name _ => do
          return .call name (← lowerArgs s args) (s.locate start)
      | _ => s.fail .unnamedCallee start
  | .privateField _ start => s.fail .privateName start
  | .index object index start => do
      let object ← lowerExpr s object
      return .call "getindex" [object, ← lowerExpr s index] (s.locate start)
  | .field object name start => do
      return .field (← lowerExpr s object) name (s.locate start)
  | .array elements _ start => do
      return .vector (← lowerElements s start elements) (s.locate start)
  | e => s.fail (.unsupportedExpression e.construct) e.start

/-- The meaning of the arguments of a call, none of which may be spread. -/
def lowerArgs (s : Scope) : List Surface.Expr → Checked (List Multimethod.Expr)
  | [] => .ok []
  | .spread _ start :: _ => s.fail (.unsupportedArgument "SpreadElement") start
  | arg :: args => do
      let first ← lowerExpr s arg
      return first :: (← lowerArgs s args)

/-- The meaning of the elements of a vector, which starts at `start`. -/
def lowerElements (s : Scope) (start : Position) :
    List Surface.Expr → Checked (List Multimethod.Expr)
  | [] => .ok []
  | .hole :: _ => s.fail .vectorShape start
  | .spread _ _ :: _ => s.fail .vectorShape start
  | element :: elements => do
      let first ← lowerExpr s element
      return first :: (← lowerElements s start elements)

end

/-! ## Statements -/

/-- The value that an assignment stores. One with an operator first reads its target. -/
def assignedValue (s : Scope) (op : String) (target value : Surface.Expr) (start : Position) :
    Checked Multimethod.Expr := do
  let value ← lowerExpr s value
  if op == "=" then return value
  else
    match compoundCallee op with
    | none => s.fail (.unsupportedAssignmentOperator op) start
    | some callee => return .call callee [← lowerExpr s target, value] (s.locate start)

/-- An assignment of a variable, an element or a field. -/
def lowerAssign (s : Scope) (op : String) (target value : Surface.Expr) (start : Position) :
    Checked Multimethod.Stmt := do
  let value ← assignedValue s op target value start
  let loc := s.locate start
  match target.bare with
  | .name name _ => return .assign name value none loc
  | .index object index _ =>
      let object ← lowerExpr s object
      let index ← lowerExpr s index
      return .expr (.call "setindex!" [object, value, index] loc) loc
  | .field object name _ => return .fieldAssign (← lowerExpr s object) name value loc
  | target => s.fail (.unsupportedAssignmentTarget target.targetConstruct) start

/-- A count up or down of a variable. -/
def lowerUpdate (s : Scope) (op : String) (target : Surface.Expr) (start : Position) :
    Checked Multimethod.Stmt :=
  let loc := s.locate start
  match target.bare with
  | .name name _ =>
      let callee := if op == "++" then "+" else "-"
      .ok (.assign name (.call callee [.name name loc, .literal Ty.int none loc] loc) none loc)
  | _ => s.fail .incrementTarget start

/-- An expression as a statement. -/
def lowerEffect (s : Scope) (e : Surface.Expr) : Checked Multimethod.Stmt :=
  match e.bare with
  | .update op target start => lowerUpdate s op target start
  | .assign op target value _ start => lowerAssign s op target value start
  | e => do
      return .expr (← lowerExpr s e) (s.locate e.start)

/-- A declared variable as an assignment. -/
def lowerDeclarator (s : Scope) (d : Declarator) : Checked Multimethod.Stmt :=
  match d.binder with
  | .other _ _ start => s.fail .destructuring start
  | .name name ascription start =>
      match d.value with
      | none => s.fail (.missingInitializer name) start
      | some value => do
          let value ← lowerExpr s value
          return .assign name value (← lowerAscription s ascription) (s.locate start)

/-- The first clause of a counting loop. -/
def lowerInit (s : Scope) : LoopInit → Checked (List Multimethod.Stmt)
  | .none => .ok []
  | .declared ds => ds.mapM (lowerDeclarator s)
  | .expression e => do
      return [← lowerEffect s e]

mutual

/-- The meaning of a statement: any number of statements of the core language. -/
def lowerStmt (s : Scope) : Surface.Stmt → Checked (List Multimethod.Stmt)
  | .block body _ => lowerStmts s body
  | .empty _ => .ok []
  | .declared ds _ => ds.mapM (lowerDeclarator s)
  | .expression e _ => do
      return [← lowerEffect s e]
  | .ret none start => .ok [.ret none (s.locate start)]
  | .ret (some value) start => do
      return [.ret (some (← lowerExpr s value)) (s.locate start)]
  | .raise value start => do
      return [.raise (← lowerExpr s value) (s.locate start)]
  | .branch test consequent alternate start => do
      let test ← lowerExpr s test
      let consequent ← lowerStmt s consequent
      let alternate ← match alternate with
        | some alternate => lowerStmt s alternate
        | none => pure []
      return [.branch test consequent alternate (s.locate start)]
  | .whileLoop test body start => do
      let test ← lowerExpr s test
      return [.loop test (← lowerStmt s body) [] (s.locate start)]
  | .forLoop init test update body start => do
      let loc := s.locate start
      let init ← lowerInit s init
      let test ← match test with
        | some test => lowerExpr s test
        | none => pure (.literal Ty.bool (some true) loc)
      let update ← match update with
        | some update => do pure [← lowerEffect s update]
        | none => pure []
      return init ++ [.loop test (← lowerStmt s body) update loc]
  | .forOf none _ _ start => s.fail .loopBinding start
  | .forOf (some target) iterable body start => do
      let iterable ← lowerExpr s iterable
      return [.forEach target iterable (← lowerStmt s body) (s.locate start)]
  | .jump jump isLabeled start =>
      if isLabeled then s.fail .labeledJump start else .ok [.jump jump (s.locate start)]
  | .other construct start => s.fail (.unsupportedStatement construct) start

/-- The meaning of statements in order. -/
def lowerStmts (s : Scope) : List Surface.Stmt → Checked (List Multimethod.Stmt)
  | [] => .ok []
  | stmt :: stmts => do
      let first ← lowerStmt s stmt
      return first ++ (← lowerStmts s stmts)

end

end Multimethod.Lowering
