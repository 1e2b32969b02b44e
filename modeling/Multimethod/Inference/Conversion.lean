import Multimethod.Diagnosis
import Multimethod.Lattice.Bounds

/-!
# Conversion

Assignments, returns and field writes convert their value to a declared type. Numbers convert
among themselves; any other value must have something in common with the target.
-/

namespace Multimethod.Inference

open Multimethod.Lattice

/-- The numbers. -/
def numberType : Ty := .abstract "Number"

/-- The type of a converted value, or nothing when no value of `value` converts. -/
def convertType (h : Hierarchy) (value target : Ty) : Option Ty :=
  if value.isBottom || isSubtype h value target then some value
  else if isSubtype h value numberType && isSubtype h target numberType then some target
  else
    let overlap := meet h value target
    if overlap.isBottom then none else some overlap

/-- The type of a converted value together with the diagnostic for a value that cannot
    convert. -/
def convertChecked (h : Hierarchy) (value target : Ty) (call : String) (loc : Location) :
    Ty × List Diagnostic :=
  match convertType h value target with
  | some converted => (converted, [])
  | none => (.bottom, [Diagnostic.noConversion value target call loc])

/-- The conversion of a value as a call. -/
def conversionCall (value target : Ty) : String :=
  renderCall "convert" none [Ty.typeOf target, value]

/-- The builtin conversion `convert(Type{T}, x)`. -/
def convertIntrinsic (h : Hierarchy) (site : CallSite) (args : List Ty) :
    Ty × List Diagnostic :=
  match args with
  | typeArg :: value :: _ =>
      match typeArg with
      | .concrete "Type" (target :: _) =>
          convertChecked h value target (site.render args) site.loc
      | _ => (.any, [])
  | _ => (.bottom, [])

end Multimethod.Inference
