import Multimethod.Environment.Basic

/-!
# Merging environments

What holds behind a point where several paths meet, and how bindings that keep changing from
one pass of a loop to the next are brought to rest.
-/

namespace Multimethod.Environment

open Multimethod.Lattice

/-- Adds a binding of the second path to the bindings of the first. -/
def mergeBinding (h : Hierarchy) (first : Assoc Binding) (merged : Assoc Binding)
    (entry : String × Binding) : Assoc Binding :=
  match first.find? entry.1 with
  | none => merged.insert entry.1 entry.2
  | some binding =>
      if binding.type.same entry.2.type then merged
      else
        merged.insert entry.1
          { binding with
            type := join h binding.type entry.2.type
            declared := binding.declared.or entry.2.declared }

/-- Joins two environments. A name that is bound on one path only keeps its type. -/
def merge (h : Hierarchy) (a b : Environment) : Environment :=
  { a with bindings := b.bindings.foldl (mergeBinding h a.bindings) a.bindings }

/-- Joins the environments of all paths that get to a point. -/
def mergeFlows (h : Hierarchy) (flows : List Flow) : Flow :=
  flows.foldl
    (fun result flow =>
      match result, flow with
      | none, flow => flow
      | some env, none => some env
      | some env, some other => some (env.merge h other))
    none

/-- The types that each name has taken over the passes of a loop. -/
abbrev Histories := Assoc (List Ty)

/-- Records the type of one binding and widens it when it has taken too many. -/
def widenBinding (h : Hierarchy) (threshold : Nat) (state : Environment × Histories)
    (entry : String × Binding) : Environment × Histories :=
  let history := (state.2.find? entry.1).getD [] ++ [entry.2.type]
  let histories := state.2.insert entry.1 history
  let widened := widen h history threshold
  if !widened.same entry.2.type && isSubtype h entry.2.type widened then
    (state.1.update entry.1 widened entry.2.kind none, histories)
  else (state.1, histories)

/-- Records the types of all bindings and widens those that have taken more than `threshold`
    distinct types. -/
def widenAll (h : Hierarchy) (env : Environment) (histories : Histories) (threshold : Nat) :
    Environment × Histories :=
  env.bindings.foldl (widenBinding h threshold) (env, histories)

/-- The environment `next`, with every binding that differs from `env` set to the top. -/
def topDivergent (env next : Environment) : Environment :=
  next.bindings.foldl
    (fun result entry =>
      if env.holds entry.1 entry.2.type then result
      else result.update entry.1 .any entry.2.kind none)
    next

end Multimethod.Environment
