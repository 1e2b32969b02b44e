import Multimethod.Program.Expr
import Multimethod.Surface.Position

/-!
# Syntax trees

The surface language admits much more than the core language has a meaning for. A construct
without one is kept by its name alone, together with what the grammar still has to check in
it. Parentheses are kept, since they decide what may be assigned to.
-/

namespace Multimethod.Surface

/-- A type annotation. -/
inductive TypeExpr where
  | any
  | never
  /-- The type of the absent value, by any of its three names. -/
  | nothing
  | parens (inner : TypeExpr)
  | union (members : List TypeExpr)
  /-- A name with type arguments. -/
  | reference (name : String) (args : List TypeExpr) (start : Position)
  | qualified (start : Position)
  | other (construct : String) (start : Position)
  deriving Inhabited

mutual

/-- An expression. -/
inductive Expr where
  | number (isWhole : Bool) (start : Position)
  | string (raw : String) (start : Position)
  | bool (value : Bool) (start : Position)
  | null (start : Position)
  /-- A template, by its substitutions. -/
  | template (substitutions : List Expr) (start : Position)
  | name (name : String) (start : Position)
  | parens (inner : Expr)
  | unary (op : String) (operand : Expr) (start : Position)
  | update (op : String) (operand : Expr) (start : Position)
  | binary (op : String) (left right : Expr) (start : Position)
  /-- A private name by itself, which only the left side of `in` may be. -/
  | privateName (name : String) (start : Position)
  | logical (op : String) (left right : Expr) (start : Position)
  | conditional (test consequent alternate : Expr) (start : Position)
  /-- An assignment; `stop` is where its target ends. -/
  | assign (op : String) (target value : Expr) (stop start : Position)
  | call (callee : Expr) (args : List Expr) (start : Position)
  /-- A call behind `new`. -/
  | creation (callee : Expr) (args : List Expr) (start : Position)
  | field (object : Expr) (name : String) (start : Position)
  | privateField (object : Expr) (start : Position)
  /-- An access that may have no object, by a private name or otherwise. -/
  | optionalField (isPrivate : Bool) (start : Position)
  | index (object index : Expr) (start : Position)
  | array (elements : List Expr) (trailingComma : Option Position) (start : Position)
  | object (properties : List Property) (trailingComma : Option Position) (start : Position)
  /-- A place without an element in an array. -/
  | hole
  | spread (operand : Expr) (start : Position)
  /-- A typed expression, by the name of its form. -/
  | cast (construct : String) (operand : Expr) (start : Position)
  /-- A generic function applied to type arguments only. -/
  | applied (operand : Expr) (start : Position)
  /-- An item in parentheses with a type annotation, which only a parameter may have. -/
  | annotated (operand : Expr) (colon start : Position)
  /-- A rest parameter of what may become an arrow function. -/
  | rest (names : List (String × Position)) (start : Position)
  | other (construct : String) (start : Position)

/-- A property of an object. -/
inductive Property where
  | value (value : Expr)
  | method (key : Position)
  | spread (operand : Expr) (start : Position)

end

instance : Inhabited Expr := ⟨.null .start⟩

namespace Expr

/-- Where an expression starts. Parentheses do not count. -/
def start : Expr → Position
  | number _ p | string _ p | bool _ p | null p | template _ p | name _ p | unary _ _ p
  | update _ _ p | binary _ _ _ p | privateName _ p | logical _ _ _ p | conditional _ _ _ p
  | assign _ _ _ _ p | call _ _ p | creation _ _ p | field _ _ p | privateField _ p
  | optionalField _ p | index _ _ p | array _ _ p | object _ _ p | spread _ p | cast _ _ p
  | applied _ p | annotated _ _ p | rest _ p | other _ p => p
  | parens inner => inner.start
  | hole => .start

/-- An expression without the parentheses around it. -/
def bare : Expr → Expr
  | parens inner => inner.bare
  | e => e

/-- Whether an expression stands in parentheses. -/
def isParens : Expr → Bool
  | parens _ => true
  | _ => false

/-- Whether an expression is a typed one. -/
def isCast : Expr → Bool
  | cast _ _ _ => true
  | _ => false

/-- The name of the form of an expression. -/
def construct : Expr → String
  | number _ _ => "NumericLiteral"
  | string _ _ => "StringLiteral"
  | bool _ _ => "BooleanLiteral"
  | null _ => "NullLiteral"
  | template _ _ => "TemplateLiteral"
  | name _ _ => "Identifier"
  | parens inner => inner.construct
  | unary _ _ _ => "UnaryExpression"
  | update _ _ _ => "UpdateExpression"
  | binary _ _ _ _ => "BinaryExpression"
  | privateName _ _ => "PrivateName"
  | logical _ _ _ _ => "LogicalExpression"
  | conditional _ _ _ _ => "ConditionalExpression"
  | assign _ _ _ _ _ => "AssignmentExpression"
  | call _ _ _ => "CallExpression"
  | creation _ _ _ => "NewExpression"
  | optionalField _ _ => "OptionalMemberExpression"
  | field _ _ _ | privateField _ _ | index _ _ _ => "MemberExpression"
  | array _ _ _ => "ArrayExpression"
  | object _ _ _ => "ObjectExpression"
  | hole => "Hole"
  | spread _ _ => "SpreadElement"
  | cast construct _ _ => construct
  | applied _ _ => "TSInstantiationExpression"
  | annotated _ _ _ => "TSTypeCastExpression"
  | rest _ _ => "RestElement"
  | other construct _ => construct

/-- The name of the form of an expression that is assigned to. -/
def targetConstruct : Expr → String
  | array _ _ _ => "ArrayPattern"
  | object _ _ _ => "ObjectPattern"
  | parens inner => inner.targetConstruct
  | e => e.construct

end Expr

/-- What a declaration or a parameter binds. -/
inductive Binder where
  | name (name : String) (ascription : Option TypeExpr) (start : Position)
  /-- Any other form, with the names that it binds in order. -/
  | other (construct : String) (names : List (String × Position)) (start : Position)
  deriving Inhabited

namespace Binder

/-- Where a binder starts. -/
def start : Binder → Position
  | name _ _ p => p
  | other _ _ p => p

/-- The names that a binder binds. -/
def names : Binder → List (String × Position)
  | name n _ p => [(n, p)]
  | other _ ns _ => ns

/-- Whether a binder is a plain name. -/
def isName : Binder → Bool
  | name _ _ _ => true
  | other _ _ _ => false

end Binder

/-- A declared variable with its initial value. -/
structure Declarator where
  binder : Binder
  value : Option Expr

/-- The first clause of a counting loop. -/
inductive LoopInit where
  | none
  | declared (declarators : List Declarator)
  | expression (expr : Expr)

/-- A statement. -/
inductive Stmt where
  | block (body : List Stmt) (start : Position)
  | empty (start : Position)
  | declared (declarators : List Declarator) (start : Position)
  | expression (expr : Expr) (start : Position)
  | ret (value : Option Expr) (start : Position)
  | raise (value : Expr) (start : Position)
  | branch (test : Expr) (consequent : Stmt) (alternate : Option Stmt) (start : Position)
  | whileLoop (test : Expr) (body : Stmt) (start : Position)
  | forLoop (init : LoopInit) (test update : Option Expr) (body : Stmt) (start : Position)
  /-- A loop over elements; `target` is missing unless the loop binds a single name. -/
  | forOf (target : Option String) (iterable : Expr) (body : Stmt) (start : Position)
  | jump (jump : Jump) (isLabeled : Bool) (start : Position)
  | other (construct : String) (start : Position)
  deriving Inhabited

/-- Where a statement starts. -/
def Stmt.start : Stmt → Position
  | block _ p | empty p | declared _ p | expression _ p | ret _ p | raise _ p | branch _ _ _ p
  | whileLoop _ _ p | forLoop _ _ _ _ p | forOf _ _ _ p | jump _ _ p | other _ p => p

/-- The name of the form of a statement. -/
def Stmt.construct : Stmt → String
  | block _ _ => "BlockStatement"
  | empty _ => "EmptyStatement"
  | declared _ _ => "VariableDeclaration"
  | expression _ _ => "ExpressionStatement"
  | ret _ _ => "ReturnStatement"
  | raise _ _ => "ThrowStatement"
  | branch _ _ _ _ => "IfStatement"
  | whileLoop _ _ _ => "WhileStatement"
  | forLoop _ _ _ _ _ => "ForStatement"
  | forOf _ _ _ _ => "ForOfStatement"
  | jump .leave _ _ => "BreakStatement"
  | jump .next _ _ => "ContinueStatement"
  | other construct _ => construct

/-- A declared type parameter. -/
structure TypeParamDecl where
  name : String
  isOut : Bool
  bound : Option TypeExpr

/-- The declaration of a function. -/
structure FunctionDecl where
  name : String
  isAsync : Bool
  isGenerator : Bool
  typeParams : List TypeParamDecl
  params : List Binder
  returns : Option TypeExpr
  /-- Missing for a declaration without an implementation. -/
  body : Option (List Stmt)
  start : Position

/-- A member of a class. -/
inductive Member where
  /-- A field with a plain name. -/
  | field (name : String) (ascription : Option TypeExpr) (hasValue : Bool) (start : Position)
  | other (start : Position)

/-- The declaration of a class. -/
structure ClassDecl where
  name : String
  isAbstract : Bool
  typeParams : List TypeParamDecl
  superclass : Option Expr
  /-- Whether the superclass has type arguments. -/
  hasSuperArgs : Bool
  members : List Member
  start : Position

/-- The declaration of a type alias. -/
structure AliasDecl where
  name : String
  hasParams : Bool
  type : TypeExpr
  start : Position

/-- An item of a statement list. -/
inductive Item where
  | stmt (stmt : Stmt)
  | function (decl : FunctionDecl)
  | classDecl (decl : ClassDecl)
  | typeAlias (decl : AliasDecl)

instance : Inhabited Item := ⟨.stmt default⟩

/-- An item as a statement of a body, in which declarations have no meaning. -/
def Item.toStmt : Item → Stmt
  | stmt s => s
  | function decl =>
      .other (if decl.body.isSome then "FunctionDeclaration" else "TSDeclareFunction") decl.start
  | classDecl decl => .other "ClassDeclaration" decl.start
  | typeAlias decl => .other "TSTypeAliasDeclaration" decl.start

/-- A source unit. -/
structure SourceUnit where
  items : List Item

end Multimethod.Surface
