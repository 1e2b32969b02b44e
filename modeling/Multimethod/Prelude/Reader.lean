import Multimethod.Json.Basic
import Multimethod.Lowering.TypeText
import Multimethod.Prelude.Basic

/-!
# Reading a prelude

A prelude can be given as a JSON value. Its shape is checked first, from front to back; then
its types are declared in order, and last the signatures of its methods are read.
-/

namespace Multimethod.Prelude

open Lowering

/-! ## The shape of the data -/

/-- A type parameter as it is written. -/
structure ParamEntry where
  name : String
  bound : Option String
  isCovariant : Bool

/-- A type as it is written. -/
structure TypeEntry where
  name : String
  isAbstract : Bool
  supertype : String
  params : List ParamEntry

/-- A method as it is written. -/
structure MethodEntry where
  name : String
  typeParams : List ParamEntry
  params : List String
  returns : Option String
  intrinsic : Option Intrinsic

/-- Fails at an entry that is not what is expected there. -/
def refuse {α : Type} (path expected : String) : Checked α :=
  .error (.malformed (.preludeEntry path expected) none)

/-- An object. -/
def objectAt (path : String) : Json → Checked Json
  | .object fields => .ok (.object fields)
  | _ => refuse path "an object"

/-- A text. -/
def textAt (path : String) : Json → Checked String
  | .string text => .ok text
  | _ => refuse path "a string"

/-- The text in a field of an object. -/
def textField (record : Json) (path key : String) : Checked String :=
  textAt s!"{path}.{key}" ((record.field? key).getD .null)

/-- The text in a field of an object, if the field is there. -/
def textField? (record : Json) (path key : String) : Checked (Option String) :=
  match record.field? key with
  | none => .ok none
  | some value => some <$> textAt s!"{path}.{key}" value

/-- The items in a field of an object, with their indices; none if the field is not there. -/
def itemsField (record : Json) (path key : String) : Checked (List (Json × Nat)) :=
  match record.field? key with
  | none => .ok []
  | some (.array items) => .ok items.zipIdx
  | some _ => refuse s!"{path}.{key}" "an array"

/-- Whether a field of an object is set. -/
def isSet (record : Json) (key : String) : Bool :=
  match record.field? key with
  | some (.bool value) => value
  | _ => false

/-- Reads a type parameter. -/
def readParam (path : String) (value : Json) : Checked ParamEntry := do
  let record ← objectAt path value
  let name ← textField record path "name"
  let bound ← textField? record path "bound"
  return ⟨name, bound, isSet record "covariant"⟩

/-- Reads a type. -/
def readType (value : Json) (index : Nat) : Checked TypeEntry := do
  let path := s!"types[{index}]"
  let record ← objectAt path value
  let name ← textField record path "name"
  let supertype ← textField? record path "supertype"
  let params ← (← itemsField record path "params").mapM fun (param, j) =>
    readParam s!"{path}.params[{j}]" param
  return ⟨name, isSet record "abstract", supertype.getD "Any", params⟩

/-- Reads what a method is built in for. -/
def readIntrinsic (record : Json) (path : String) : Checked (Option Intrinsic) := do
  match ← textField? record path "intrinsic" with
  | none => return none
  | some "construct" => return some .construct
  | some "convert" => return some .convert
  | some _ => refuse s!"{path}.intrinsic" "'construct' or 'convert'"

/-- Reads a method. -/
def readMethod (value : Json) (index : Nat) : Checked MethodEntry := do
  let path := s!"methods[{index}]"
  let record ← objectAt path value
  let name ← textField record path "name"
  let typeParams ← (← itemsField record path "typeParams").mapM fun (param, j) =>
    readParam s!"{path}.typeParams[{j}]" param
  let params ← (← itemsField record path "params").mapM fun (param, j) =>
    textAt s!"{path}.params[{j}]" param
  let returns ← textField? record path "returns"
  return ⟨name, typeParams, params, returns, ← readIntrinsic record path⟩

/-! ## Building the prelude -/

/-- The scope in which the types of a prelude are read. -/
def scope (h : Hierarchy) (typeVars : Assoc Ty) : Scope where
  file := file
  hierarchy := h
  aliases := []
  typeVars := typeVars

/-- The bound of a type parameter. An empty one counts as missing. -/
def boundOf (s : Scope) (p : ParamEntry) : Checked Ty :=
  match p.bound with
  | none => .ok .any
  | some "" => .ok .any
  | some text => Lowering.readType s text

/-- Declares a type behind those declared so far. -/
def addType (found : Hierarchy × List TypeDecl) (entry : TypeEntry) :
    Checked (Hierarchy × List TypeDecl) := do
  let (h, decls) := found
  let params ← entry.params.mapM fun p => do
    let variance : Variance := if p.isCovariant then .covariant else .invariant
    return TypeParam.mk p.name variance (← boundOf (scope h []) p)
  let decl : TypeDecl :=
    { name := entry.name
      isAbstract := entry.isAbstract
      supertype := some entry.supertype
      params := params
      fields := none
      loc := some (placeOf decls.length) }
  return (← h.declare decl, decls ++ [decl])

/-- The type variables of a method; a bound may mention those in front of it. -/
def typeVarsOf (h : Hierarchy) : Assoc Ty → List ParamEntry → Checked (Assoc Ty × List TypeVar)
  | bounds, [] => .ok (bounds, [])
  | bounds, p :: ps => do
      let bound ← boundOf (scope h bounds) p
      let (bounds, others) ← typeVarsOf h (bounds.insert p.name bound) ps
      return (bounds, ⟨p.name, bound⟩ :: others)

/-- The type that a method returns, if it is told. -/
def returnsOf (s : Scope) : Option String → Checked (Option Ty)
  | none => .ok none
  | some "" => .ok none
  | some text => some <$> Lowering.readType s text

/-- Builds a method. -/
def buildMethod (h : Hierarchy) (entry : MethodEntry) (loc : Location) : Checked Method := do
  let (bounds, typeParams) ← typeVarsOf h [] entry.typeParams
  let params ← entry.params.mapM (Lowering.readType (scope h bounds))
  let returns ← returnsOf (scope h bounds) entry.returns
  return { method entry.name typeParams params returns entry.intrinsic with loc := loc }

/-- Reads a prelude. -/
def ofJson (data : Json) : Checked Prelude := do
  let root ← objectAt "prelude" data
  let types ← (← itemsField root "prelude" "types").mapM fun (item, i) => readType item i
  let methods ← (← itemsField root "prelude" "methods").mapM fun (item, i) => readMethod item i
  let (h, decls) ← types.foldlM addType (Hierarchy.initial, [])
  let methods ← methods.zipIdx.mapM fun (entry, i) =>
    buildMethod h entry (placeOf (decls.length + i))
  return ⟨decls, methods⟩

end Multimethod.Prelude
