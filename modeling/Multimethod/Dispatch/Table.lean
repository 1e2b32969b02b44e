import Multimethod.Dispatch.Matching

/-!
# The method table

A lookup selects the most specific method among those that apply fully. Methods that apply
only partially ride along when they are more specific than the selected one, since any of
them may run.
-/

namespace Multimethod.Dispatch

open Multimethod.Lattice

/-- The registered methods, in order of registration. -/
structure MethodTable where
  methods : List Method
  isFrozen : Bool

namespace MethodTable

/-- The table without methods. -/
def empty : MethodTable := ⟨[], false⟩

/-- Adds a method to a table that is not frozen yet. -/
def register (table : MethodTable) (method : Method) : Checked MethodTable :=
  if table.isFrozen then .error (.tableSealed method.name)
  else .ok { table with methods := table.methods ++ [method] }

/-- Ends registration. -/
def freeze (table : MethodTable) : MethodTable :=
  { table with isFrozen := true }

/-- The frozen table of a list of methods. -/
def ofMethods (methods : List Method) : MethodTable := ⟨methods, true⟩

/-- The methods of a generic function. -/
def methodsOf (table : MethodTable) (name : String) : List Method :=
  table.methods.filter (·.name == name)

/-- Whether a generic function has a method. -/
def has (table : MethodTable) (name : String) : Bool :=
  table.methods.any (·.name == name)

/-- The generic functions, in order of their first registration. -/
def functionNames (table : MethodTable) : List String :=
  table.methods.foldl
    (fun names m => if names.contains m.name then names else names ++ [m.name]) []

end MethodTable

/-- Whether a where-clause variable stands twice in the parameters of a method. -/
def repeatsTypeVar (m : Method) : Bool :=
  let names := m.params.flatMap fun p => p.type.varNames
  names.any fun n => 1 < names.count n

/-- Whether two lists of parameter types have one length and compare position by position. -/
def paramsBelow (h : Hierarchy) : List Ty → List Ty → Bool
  | [], [] => true
  | a :: as, b :: bs => isSubtype h a b && paramsBelow h as bs
  | _, _ => false

/-- The erased parameter types of a method. -/
def erasedParams (m : Method) : List Ty :=
  m.params.map fun p => p.type.erase

/-- Strict specificity: the parameters of `a` lie below those of `b` but not the other way
    round. Of equivalent signatures the one that repeats a variable is more specific. -/
def moreSpecific (h : Hierarchy) (a b : Method) : Bool :=
  let as := erasedParams a
  let bs := erasedParams b
  if !paramsBelow h as bs then false
  else if !paramsBelow h bs as then true
  else repeatsTypeVar a && !repeatsTypeVar b

/-- The answer of a lookup. -/
inductive Selection where
  /-- No method applies. -/
  | noMethod
  /-- Several fully applicable methods, none more specific than another. -/
  | ambiguous (candidates : List Method)
  /-- The methods that may run, the selected one first. -/
  | matched (found : List Match)

/-- The fully applicable matches that no other one is more specific than. -/
def maximal (h : Hierarchy) (full : List Match) : List Match :=
  full.filter fun m => !full.any fun other => moreSpecific h other.method m.method

/-- Looks up a call. When no method applies fully, all partially applicable ones may run. -/
def lookup (h : Hierarchy) (table : MethodTable) (name : String) (args : List Ty) : Selection :=
  let found := (table.methodsOf name).filterMap fun m => matchMethod h m args
  if found.isEmpty then .noMethod
  else
    let full := found.filter (·.applicability == .full)
    if full.isEmpty then .matched found
    else
      match maximal h full with
      | [] => .matched full
      | [best] =>
          .matched (best :: found.filter fun m =>
            m.applicability == .partly && moreSpecific h m.method best.method)
      | several => .ambiguous (several.map (·.method))

end Multimethod.Dispatch
