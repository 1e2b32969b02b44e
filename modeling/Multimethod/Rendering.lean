import Multimethod.Program.Method

/-!
# Rendering types, calls and signatures

The notation of the analysed language: `Vector{Int}` for a type, `f(::Int, ::String)` for a
call and `f(x::T) where T<:Real` for a signature.
-/

namespace Multimethod

/-- How many levels of nested types are rendered. -/
def defaultLevels : Nat := 7

mutual

/-- Renders the outer `levels` levels of a type; what lies deeper becomes dots. -/
def Ty.renderLevels (levels : Nat) (t : Ty) : String :=
  match levels, t with
  | 0, _ => "..."
  | _, .any => "Any"
  | _, .bottom => "Bottom"
  | _, .abstract name => name
  | _, .typeVar name _ => name
  | _, .concrete name [] => name
  | n + 1, .concrete name (p :: ps) =>
      name ++ "\x7b" ++ ", ".intercalate (Ty.renderAllLevels n (p :: ps)) ++ "\x7d"
  | n + 1, .union members =>
      "Union\x7b" ++ ", ".intercalate (Ty.renderAllLevels n members) ++ "\x7d"

/-- Renders the outer `levels` levels of every type of a list. -/
def Ty.renderAllLevels (levels : Nat) (ts : List Ty) : List String :=
  match ts with
  | [] => []
  | t :: ts => Ty.renderLevels levels t :: Ty.renderAllLevels levels ts

end

/-- Renders a type. -/
def Ty.render (t : Ty) : String :=
  t.renderLevels defaultLevels

/-- Where a call stands and what it calls; a field access also names the field. -/
structure CallSite where
  callee : String
  loc : Location
  field : Option String := none
  deriving DecidableEq

/-- Renders a call with its argument types; the field stands behind the first argument. -/
def renderCall (callee : String) (field : Option String) (args : List Ty) : String :=
  let types := args.map fun t => "::" ++ t.render
  let parts :=
    match field with
    | some f => types.take 1 ++ (":" ++ f) :: types.drop 1
    | none => types
  callee ++ "(" ++ ", ".intercalate parts ++ ")"

/-- Renders the call at a site. -/
def CallSite.render (site : CallSite) (args : List Ty) : String :=
  renderCall site.callee site.field args

/-- Renders a where-clause variable. -/
def TypeVar.render (v : TypeVar) : String :=
  if v.bound.isAny then v.name else v.name ++ "<:" ++ v.bound.render

/-- Renders the signature of a method. -/
def Method.signature (m : Method) : String :=
  let params := ", ".intercalate (m.params.map fun p => p.name ++ "::" ++ p.type.render)
  let head := s!"{m.name}({params})"
  if m.typeParams.isEmpty then head
  else head ++ " where " ++ ", ".intercalate (m.typeParams.map TypeVar.render)

/-- Renders a method with the place where it is defined. -/
def Method.renderPlaced (m : Method) : String :=
  s!"{m.signature} @ {m.loc.file}:{m.loc.line}"

end Multimethod
