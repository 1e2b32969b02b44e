import Multimethod.Lowering.Scope

/-!
# Classes

A class declares a type. Classes may stand in any order: a class is declared as soon as its
supertype is, and the fields of all classes are read once every name is known.
-/

namespace Multimethod.Lowering

open Surface

/-- A class with the name of its supertype. -/
structure ClassHead where
  source : ClassDecl
  above : Option String

/-- A class whose type is declared. -/
structure DeclaredClass where
  source : ClassDecl
  decl : TypeDecl

/-- The scope of a unit in which no alias is known yet. -/
def classScope (file : String) (h : Hierarchy) : Scope where
  file := file
  hierarchy := h
  aliases := []
  typeVars := []

/-- Reads the name of the supertype of a class. -/
def classHead (s : Scope) (c : ClassDecl) : Checked ClassHead :=
  match c.superclass.map Surface.Expr.bare with
  | none => .ok ⟨c, none⟩
  | some (.name name _) => .ok ⟨c, some name⟩
  | some e => s.fail .supertypeNotName e.start

/-- Declares the type of a class, for a concrete one without fields at first. An abstract type
    has neither parameters nor fields. -/
def declareClass (file : String) (h : Hierarchy) (c : ClassHead) :
    Checked (DeclaredClass × Hierarchy) := do
  let s := classScope file h
  let source := c.source
  if source.hasSuperArgs then s.fail (.supertypeArguments source.name) source.start
  else if source.isAbstract && !source.typeParams.isEmpty then
    s.fail (.abstractParameters source.name) source.start
  else if source.isAbstract && !source.members.isEmpty then
    s.fail (.abstractFields source.name) source.start
  else
    let params ← lowerTypeParams s source.typeParams
    let decl : TypeDecl :=
      { name := source.name
        isAbstract := source.isAbstract
        supertype := some (c.above.getD "Any")
        params := params
        fields := if source.isAbstract then none else some []
        loc := some (s.locate source.start) }
    return (⟨source, decl⟩, ← h.declare decl)

/-- Declares classes one after the other. -/
def declareInOrder (file : String) (h : Hierarchy) :
    List ClassHead → Checked (List DeclaredClass × Hierarchy)
  | [] => .ok ([], h)
  | c :: cs => do
      let (first, h) ← declareClass file h c
      let (others, h) ← declareInOrder file h cs
      return (first :: others, h)

/-- Whether the supertype of a class is declared. -/
def ClassHead.isReady (h : Hierarchy) (c : ClassHead) : Bool :=
  match c.above with
  | none => true
  | some above => h.has above

/-- Declares classes in rounds: in each one those that are ready, in the order in which they
    stand. If none is, the first one is declared all the same, which fails. -/
def declareRounds (file : String) (h : Hierarchy) (pending : List ClassHead) :
    Checked (List DeclaredClass × Hierarchy) :=
  match pending with
  | [] => .ok ([], h)
  | c :: cs =>
      let waiting := (c :: cs).filter fun c => !c.isReady h
      if waiting.length < (c :: cs).length then do
        let (declared, h') ← declareInOrder file h ((c :: cs).filter (·.isReady h))
        let (others, h') ← declareRounds file h' waiting
        return (declared ++ others, h')
      else do
        let (first, h') ← declareClass file h c
        let (others, h') ← declareRounds file h' cs
        return (first :: others, h')
termination_by pending.length
decreasing_by
  · assumption
  · exact Nat.lt_succ_self _

/-- Declares the types of all classes of a unit. -/
def declareClasses (file : String) (h : Hierarchy) (classes : List ClassDecl) :
    Checked (List DeclaredClass × Hierarchy) := do
  declareRounds file h (← classes.mapM (classHead (classScope file h)))

/-- The fields of a class behind those found so far. A field without an annotation may hold
    anything. -/
def lowerFields (s : Scope) (name : String) : Assoc Ty → List Member → Checked (Assoc Ty)
  | fields, [] => .ok fields
  | _, .other start :: _ => s.fail (.memberNotField name) start
  | fields, .field field ascription hasValue start :: members => do
      if hasValue then s.fail (.fieldInitializer name field) start
      else if fields.contains field then s.fail (.duplicateField name field) start
      else
        let type ← lowerAscription s ascription
        lowerFields s name (fields.insert field (type.getD .any)) members

/-- A declared class with its fields. -/
def completeClass (s : Scope) (c : DeclaredClass) : Checked DeclaredClass :=
  match c.decl.fields with
  | none => .ok c
  | some _ => do
      let s := s.withTypeVars (boundsOf c.decl.params)
      let fields ← lowerFields s c.decl.name [] c.source.members
      return { c with decl := { c.decl with fields := some fields } }

end Multimethod.Lowering
