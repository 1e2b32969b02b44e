import Multimethod.Lowering.Body
import Multimethod.Lowering.Classes
import Multimethod.Program.Method

/-!
# Units

The meaning of a source unit. Types come first, so that methods and fields may refer to types
that stand further down; then aliases, fields, functions, global variables and the calls from
which the analysis starts.
-/

namespace Multimethod.Lowering

open Surface

/-! ## The items of a unit -/

/-- Refuses statements that have no meaning outside a function. -/
def checkItem (s : Scope) : Item → Checked Unit
  | .stmt (.declared _ _) => .ok ()
  | .stmt (.expression _ _) => .ok ()
  | .stmt (.empty _) => .ok ()
  | .stmt stmt => s.fail (.unsupportedToplevel stmt.construct) stmt.start
  | _ => .ok ()

/-- The classes of a unit. -/
def classesOf (items : List Item) : List ClassDecl :=
  items.filterMap fun
    | .classDecl decl => some decl
    | _ => none

/-- The type aliases of a unit. -/
def aliasesOf (items : List Item) : List AliasDecl :=
  items.filterMap fun
    | .typeAlias decl => some decl
    | _ => none

/-- The functions of a unit. -/
def functionsOf (items : List Item) : List FunctionDecl :=
  items.filterMap fun
    | .function decl => some decl
    | _ => none

/-- The global variables of a unit. -/
def variablesOf (items : List Item) : List Declarator :=
  items.flatMap fun
    | .stmt (.declared ds _) => ds
    | _ => []

/-- The expressions of a unit, with where their statements start. -/
def expressionsOf (items : List Item) : List (Surface.Expr × Position) :=
  items.filterMap fun
    | .stmt (.expression e start) => some (e, start)
    | _ => none

/-! ## Declarations -/

/-- Adds an alias to a scope. -/
def addAlias (s : Scope) (a : AliasDecl) : Checked Scope := do
  if a.hasParams then s.fail (.aliasParameters a.name) a.start
  else if s.aliases.contains a.name || s.hierarchy.has a.name then
    s.fail (.alreadyDeclared a.name) a.start
  else
    let type ← lowerType s a.type
    return { s with aliases := s.aliases.insert a.name type }

/-- The constructor of a concrete class: a method with one parameter for each field. -/
def constructor? (s : Scope) (c : DeclaredClass) : Option Method :=
  match c.decl.fields with
  | none => none
  | some fields =>
      some
        { name := c.decl.name
          params := fields.map fun (name, _) => ⟨name, .any⟩
          typeParams := []
          returns := none
          body := none
          intrinsic := some .construct
          loc := s.locate c.source.start }

/-- A parameter of the function `function`. -/
def lowerParam (s : Scope) (function : String) : Binder → Checked Param
  | .name name ascription _ => do
      let type ← lowerAscription s ascription
      return ⟨name, type.getD .any⟩
  | .other construct _ start => s.fail (.unsupportedParameter construct function) start

/-- A function as a method. -/
def lowerFunction (s : Scope) (f : FunctionDecl) : Checked Method := do
  if f.isAsync || f.isGenerator then s.fail (.asyncOrGenerator f.name) f.start
  else
    let bounds := boundsOf (← lowerTypeParams (s.withTypeVars []) f.typeParams)
    let s := s.withTypeVars bounds
    let params ← f.params.mapM (lowerParam s f.name)
    let returns ← lowerAscription s f.returns
    let body ← match f.body with
      | none => pure none
      | some stmts => some <$> lowerStmts s stmts
    return {
      name := f.name
      params := params
      typeParams := bounds.map fun (name, bound) => ⟨name, bound⟩
      returns := returns
      body := body
      intrinsic := none
      loc := s.locate f.start }

/-- A global variable, which starts as a literal. -/
def lowerGlobal (s : Scope) (d : Declarator) : Checked GlobalBinding :=
  match d.binder, d.value with
  | .name name _ start, some value => do
      match ← lowerExpr s value with
      | .literal type _ _ => return ⟨name, type, s.locate start⟩
      | _ => s.fail (.globalNotLiteral name) start
  | binder, _ => s.fail .globalShape binder.start

/-- A call from which the analysis starts. -/
def lowerEntry (s : Scope) (e : Surface.Expr) (start : Position) : Checked EntryCall := do
  match ← lowerExpr s e with
  | .call callee args loc => return ⟨callee, args, loc⟩
  | _ => s.fail .entryNotCall start

/-! ## The unit -/

/-- The meaning of a source unit, with the hierarchy that its classes extend. -/
def lowerUnit (file : String) (h : Hierarchy) (unit : SourceUnit) :
    Checked (Program × Hierarchy) := do
  let items := unit.items
  items.forM (checkItem (classScope file h))
  let (declared, h) ← declareClasses file h (classesOf items)
  let s ← (aliasesOf items).foldlM addAlias (classScope file h)
  let classes ← declared.mapM (completeClass s)
  let functions ← (functionsOf items).mapM (lowerFunction s)
  let globals ← (variablesOf items).mapM (lowerGlobal s)
  let entries ← (expressionsOf items).mapM fun (e, start) => lowerEntry s e start
  let types := classes.map (·.decl)
  let program : Program :=
    { file := file
      types := types
      methods := classes.filterMap (constructor? s) ++ functions
      globals := globals
      entries := entries }
  return (program, types.foldl Hierarchy.withFieldsOf h)

end Multimethod.Lowering
