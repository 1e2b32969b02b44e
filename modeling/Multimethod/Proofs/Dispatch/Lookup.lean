import Multimethod.Dispatch.Table
import Multimethod.Proofs.Dispatch.Matching

/-!
# Calls without a method

A lookup answers that there is no method exactly if no method matches. Since a method that matches
some arguments also matches all broader ones, a call that is reported to have no method has none
whatever its arguments turn out to be.
-/

namespace Multimethod.Dispatch

open Multimethod.Lattice

variable {h : Hierarchy} {table : MethodTable} {name : String} {args a b : List Ty} {m : Method}
  {found : List Match}

/-- The methods of a generic function that match, in the order of the table. -/
def matching (h : Hierarchy) (table : MethodTable) (name : String) (args : List Ty) :
    List Match :=
  (table.methodsOf name).filterMap fun m => matchMethod h m args

/-- The matches that apply fully. -/
def fullMatches (found : List Match) : List Match :=
  found.filter (·.applicability == .full)

theorem lookup_eq (h : Hierarchy) (table : MethodTable) (name : String) (args : List Ty) :
    lookup h table name args =
      if (matching h table name args).isEmpty then .noMethod
      else if (fullMatches (matching h table name args)).isEmpty then
        .matched (matching h table name args)
      else
        match maximal h (fullMatches (matching h table name args)) with
        | [] => .matched (fullMatches (matching h table name args))
        | [best] =>
            .matched (best :: (matching h table name args).filter fun m =>
              m.applicability == .partly && moreSpecific h m.method best.method)
        | several => .ambiguous (several.map (·.method)) :=
  rfl

/-- A lookup fails exactly if no method of the function matches. -/
theorem lookup_eq_noMethod_iff :
    lookup h table name args = .noMethod ↔
      ∀ m ∈ table.methodsOf name, matchMethod h m args = none := by
  have empty : (matching h table name args).isEmpty = true ↔
      ∀ m ∈ table.methodsOf name, matchMethod h m args = none := by
    rw [List.isEmpty_iff, matching, List.filterMap_eq_nil_iff]
  rw [lookup_eq, ← empty]
  by_cases nothing : (matching h table name args).isEmpty = true
  · simp [nothing]
  · rw [if_neg nothing]
    refine ⟨fun answer => ?_, fun some => absurd some nothing⟩
    split at answer
    · cases answer
    · split at answer <;> cases answer

theorem mem_methods_of_mem_methodsOf (member : m ∈ table.methodsOf name) : m ∈ table.methods :=
  (List.mem_filter.1 member).1

/-- A call for which no method is found has none either for any arguments without unions that
    are narrower. -/
theorem noMethod_of_broader (built : h.Declared) (uniform : h.UniformVariance)
    (wellFormed : ∀ m ∈ table.methods, m.WellFormed h) (solidB : ∀ t ∈ b, t.Solid h)
    (solidA : ∀ t ∈ a, t.Solid h) (single : ∀ t ∈ a, t.unionFree = true)
    (below : List.Forall₂ (fun x y => isSubtype h x y = true) a b)
    (broad : lookup h table name b = .noMethod) : lookup h table name a = .noMethod := by
  rw [lookup_eq_noMethod_iff] at broad ⊢
  intro m member
  have wf := wellFormed m (mem_methods_of_mem_methodsOf member)
  rw [← Option.not_isSome_iff_eq_none]
  intro matched
  have matched' :=
    matchMethod_of_broader built.ordered uniform wf solidA single solidB below matched
  rw [broad m member] at matched'
  cases matched'

/-! ## A call without a method -/

/-- The method `f(x::T, y::Vector{T}) where T <: Int`. -/
def vectorMethod : Method where
  name := "f"
  params := [⟨"x", .typeVar "T" .int⟩, ⟨"y", .vector (.typeVar "T" .int)⟩]
  typeParams := [⟨"T", .int⟩]
  returns := none
  body := none
  intrinsic := none
  loc := default

theorem wellFormed_vectorMethod : vectorMethod.WellFormed numberHierarchy where
  clause := {
    apart := by decide
    bounds := by
      intro v member
      rw [vectorMethod, List.mem_singleton] at member
      subst member
      exact ⟨by decide +kernel, by decide +kernel⟩ }
  inScope := by
    intro p member
    rcases List.mem_pair.1 member with rfl | rfl
    · exact List.mem_singleton_self _
    · exact ⟨by decide +kernel, Or.inr (by decide +kernel), List.mem_singleton_self _, trivial⟩
  bottomFree := by decide +kernel

/-- Fractions in the vector leave no method, whatever kind of number the other argument is. -/
theorem noMethod_of_broader_fractions :
    numberHierarchy.Declared ∧ numberHierarchy.UniformVariance ∧
      vectorMethod.WellFormed numberHierarchy ∧
      lookup numberHierarchy (.ofMethods [vectorMethod]) "f"
        [.abstract "Number", .vector .float] = .noMethod ∧
      lookup numberHierarchy (.ofMethods [vectorMethod]) "f" [.int, .vector .float] =
        .noMethod := by
  have uniform : numberHierarchy.UniformVariance :=
    uniformVariance_of_decls (by simp [numberHierarchy, TypeDecl.any])
  have wellFormed : ∀ m ∈ (MethodTable.ofMethods [vectorMethod]).methods,
      m.WellFormed numberHierarchy := by
    intro m member
    rw [MethodTable.ofMethods, List.mem_singleton] at member
    exact member ▸ wellFormed_vectorMethod
  have broad : lookup numberHierarchy (.ofMethods [vectorMethod]) "f"
      [.abstract "Number", .vector .float] = .noMethod := by
    refine lookup_eq_noMethod_iff.2 fun m member => ?_
    obtain rfl : m = vectorMethod := by
      simpa [MethodTable.methodsOf, MethodTable.ofMethods, vectorMethod] using member
    have computed : (matchMethod numberHierarchy vectorMethod
        [.abstract "Number", .vector .float]).isNone = true := by decide +kernel
    exact Option.isNone_iff_eq_none.1 computed
  have solid : ∀ t : Ty, t.ground numberHierarchy = true → t.bottomFree = true →
      ∀ u ∈ [t, .vector .float], u.Solid numberHierarchy := fun t ground free =>
    forall_mem_pair ⟨ground, free⟩ ⟨by decide +kernel, by decide +kernel⟩
  refine ⟨numberHierarchy_declared, uniform, wellFormed_vectorMethod, broad, ?_⟩
  exact noMethod_of_broader numberHierarchy_declared uniform wellFormed
    (solid _ (by decide +kernel) rfl) (solid _ (by decide +kernel) rfl) (by decide +kernel)
    (.cons (by decide +kernel) (.cons (by decide +kernel) .nil)) broad

end Multimethod.Dispatch
