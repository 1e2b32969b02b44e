import Multimethod.Hierarchy
import Multimethod.Surface.Tree

/-!
# Scopes

What the names in a type annotation stand for: the type variables of the enclosing method or
class, the aliases of the unit, and the declared types, in this order. A type annotation has a
meaning only if every name in it has one and is applied to the right number of arguments.
-/

namespace Multimethod.Lowering

/-- What names stand for at some place of a unit. -/
structure Scope where
  file : String
  hierarchy : Hierarchy
  aliases : Assoc Ty
  /-- The bounds of the type variables. -/
  typeVars : Assoc Ty

namespace Scope

/-- The location of a place in the unit. -/
def locate (s : Scope) (p : Surface.Position) : Location :=
  ⟨s.file, p.line, p.column⟩

/-- Fails at a place of the unit. -/
def fail {α : Type} (s : Scope) (cause : Cause) (p : Surface.Position) : Checked α :=
  malformed cause (s.locate p)

/-- The scope in which only the given type variables are known. -/
def withTypeVars (s : Scope) (bounds : Assoc Ty) : Scope :=
  { s with typeVars := bounds }

end Scope

/-- The declared type `name` applied to arguments. Without arguments the name of a parametric
    type stands for all of its instances. -/
def resolveName (h : Hierarchy) (name : String) (args : List Ty) (loc : Location) : Checked Ty :=
  match h.find? name with
  | none => malformed (.unknownType name) loc
  | some decl =>
      if decl.isAbstract then
        if args.isEmpty then .ok decl.toTy else malformed (.abstractArguments name) loc
      else if !args.isEmpty && args.length != decl.params.length then
        malformed (.argumentCount name decl.params.length args.length) loc
      else .ok (.concrete name args)

/-- The type that stands for a type of another language. -/
def typeHint : String → Option String
  | "TSNumberKeyword" => some "Int or Float"
  | "TSStringKeyword" => some "String"
  | "TSBooleanKeyword" => some "Bool"
  | "TSUnknownKeyword" => some "Any"
  | "TSObjectKeyword" => some "Any"
  | _ => none

mutual

/-- The type that an annotation stands for. -/
def lowerType (s : Scope) : Surface.TypeExpr → Checked Ty
  | .any => .ok .any
  | .never => .ok .bottom
  | .nothing => .ok Ty.nothing
  | .parens inner => lowerType s inner
  | .union members => do
      return Ty.unionOf (← lowerTypes s members)
  | .reference name args start =>
      match s.typeVars.find? name with
      | some bound =>
          if args.isEmpty then .ok (.typeVar name bound) else s.fail (.typeVarArguments name) start
      | none =>
          match s.aliases.find? name with
          | some type =>
              if args.isEmpty then .ok type else s.fail (.aliasArguments name) start
          | none => do
              resolveName s.hierarchy name (← lowerTypes s args) (s.locate start)
  | .qualified start => s.fail .qualifiedTypeName start
  | .other construct start => s.fail (.unsupportedType construct (typeHint construct)) start

/-- The types that several annotations stand for. -/
def lowerTypes (s : Scope) : List Surface.TypeExpr → Checked (List Ty)
  | [] => .ok []
  | t :: ts => do
      let type ← lowerType s t
      let types ← lowerTypes s ts
      return type :: types

end

/-- The type of an annotation that may be missing. -/
def lowerAscription (s : Scope) : Option Surface.TypeExpr → Checked (Option Ty)
  | none => .ok none
  | some t => do
      return some (← lowerType s t)

/-- Declared type parameters. A bound may mention the parameters in front of it. -/
def lowerTypeParams (s : Scope) : List Surface.TypeParamDecl → Checked (List TypeParam)
  | [] => .ok []
  | p :: ps => do
      let bound ← lowerAscription s p.bound
      let param : TypeParam :=
        { name := p.name
          variance := if p.isOut then .covariant else .invariant
          bound := bound.getD .any }
      let others ← lowerTypeParams (s.withTypeVars (s.typeVars.insert p.name param.bound)) ps
      return param :: others

/-- The bounds of declared type parameters. -/
def boundsOf (params : List TypeParam) : Assoc Ty :=
  Assoc.ofPairs (params.map fun p => (p.name, p.bound))

end Multimethod.Lowering
