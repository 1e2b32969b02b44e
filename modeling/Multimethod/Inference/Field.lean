import Multimethod.Inference.Conversion

/-!
# Field access

Reading or writing a field makes one childless frame per member of the type of the object.
-/

namespace Multimethod.Inference

open Multimethod.Lattice

/-- The type of a field of instances of `name`, or why there is none. -/
def structField (h : Hierarchy) (name : String) (params : List Ty) (site : CallSite)
    (args : List Ty) : Ty × List Diagnostic :=
  let field := site.field.getD ""
  let object := Ty.concrete name params
  match (h.find? name).bind (·.fields) with
  | none =>
      (.bottom, [Diagnostic.builtinMisuse (site.render args)
        s!"cannot access field {field} of builtin type {object.render}" site.loc])
  | some _ =>
      match h.fieldType? name params field with
      | some type => (type, [])
      | none => (.bottom, [Diagnostic.noField site args object])

/-- The type of a field of all structs below `name` that have it, or why there is none. -/
def inheritedField (h : Hierarchy) (name : String) (site : CallSite) (args : List Ty) :
    Ty × List Diagnostic :=
  let field := site.field.getD ""
  let object := Ty.abstract name
  let structs := (h.concreteDescendants name).filter (·.fields.isSome)
  if structs.isEmpty then
    (.bottom, [Diagnostic.builtinMisuse (site.render args)
      s!"cannot access field {field} of {object.render}, which has no struct subtypes"
      site.loc])
  else
    match structs.filterMap fun decl => h.fieldType? decl.name [] field with
    | [] => (.bottom, [Diagnostic.noField site args object])
    | types => (joinAll h types, [])

mutual

/-- The type of the field that a site names in values of `object`, with the diagnostics of
    the access. -/
def resolveField (h : Hierarchy) (site : CallSite) (args : List Ty) (object : Ty) :
    Ty × List Diagnostic :=
  match object with
  | .any => (.any, [])
  | .bottom => (.bottom, [])
  | .typeVar _ bound => resolveField h site args bound
  | .union ms =>
      let found := resolveEach h site args ms
      (joinAll h (found.map (·.1)), found.flatMap (·.2))
  | .concrete name params => structField h name params site args
  | .abstract name => inheritedField h name site args

/-- The field types in the values of each type of a list. -/
def resolveEach (h : Hierarchy) (site : CallSite) (args : List Ty) (objects : List Ty) :
    List (Ty × List Diagnostic) :=
  match objects with
  | [] => []
  | object :: objects => resolveField h site args object :: resolveEach h site args objects

end

/-- The finished frame of a field access. -/
def fieldFrame (site : CallSite) (args : List Ty) (result : Ty × List Diagnostic) : Frame :=
  { Frame.start site args .intrinsic with
    ret := result.1
    errors := result.2
    status := if result.2.isEmpty then .resolved else .errored }

/-- The frame of reading a field of one member. -/
def getFieldFrame (h : Hierarchy) (site : CallSite) (object : Ty) : Frame :=
  fieldFrame site [object] (resolveField h site [object] object)

/-- The frame of writing a field of one member; the value converts to the field type. -/
def setFieldFrame (h : Hierarchy) (site : CallSite) (value object : Ty) : Frame :=
  let args := [object, value]
  let (type, errors) := resolveField h site args object
  fieldFrame site args <|
    if errors.isEmpty then convertChecked h value type (site.render args) site.loc
    else (.bottom, errors)

/-- The frames of reading a field, one per member of `object`. -/
def getFieldFrames (h : Hierarchy) (site : CallSite) (object : Ty) : List Frame :=
  object.members.map (getFieldFrame h site)

/-- The frames of writing a field, one per member of `object`. -/
def setFieldFrames (h : Hierarchy) (site : CallSite) (object value : Ty) : List Frame :=
  object.members.map (setFieldFrame h site value)

/-- What the frames of an access return together. -/
def joinReturns (h : Hierarchy) (frames : List Frame) : Ty :=
  joinAll h (frames.map (·.ret))

end Multimethod.Inference
