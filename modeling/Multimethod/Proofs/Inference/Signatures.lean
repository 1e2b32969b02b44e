import Mathlib.Algebra.Order.BigOperators.Group.Finset
import Multimethod.Inference.Interpret
import Multimethod.Proofs.Lattice.Rising

/-!
# Signatures at one place

The calls on the stack that share a callee and a place are analysed with argument types that were
widened against those of the calls further out. Position by position they rise, and since no two of
them are the same, there are not many of them.
-/

namespace Multimethod.Inference

open Multimethod.Lattice

/-- The types that an argument position has in signatures; the bottom where there is none. -/
def argumentsAt (signatures : List (List Ty)) (position : Nat) : List Ty :=
  signatures.map (argumentAt · position)

/-- Arguments widened against signatures, outermost first. -/
def widenedAgainst (setting : Setting) (signatures : List (List Ty)) (args : List Ty) : List Ty :=
  args.zipIdx.map fun (arg, position) =>
    widen setting.hierarchy (argumentsAt signatures position ++ [arg])
      setting.options.wideningThreshold

/-- The signatures that calls at one place have, outermost first: that of the first one, and then
    new ones, each widened against all before. -/
inductive Signatures (setting : Setting) (first : List Ty) : List (List Ty) → Prop where
  | first (ground : ∀ t ∈ first, t.ground setting.hierarchy = true) :
      Signatures setting first [first]
  | more {signatures : List (List Ty)} {args : List Ty}
      (before : Signatures setting first signatures)
      (ground : ∀ t ∈ args, t.ground setting.hierarchy = true)
      (new : (widenedAgainst setting signatures args).map Ty.id ∉ signatures.map (·.map Ty.id)) :
      Signatures setting first (signatures ++ [widenedAgainst setting signatures args])

/-- How many different types `arity` argument positions have in signatures, taken together. -/
def variety (arity : Nat) (signatures : List (List Ty)) : Nat :=
  ∑ position ∈ Finset.range arity, (Ty.distinct (argumentsAt signatures position)).length

/-- The signatures with so many arguments. -/
def ofArity (arity : Nat) (signatures : List (List Ty)) : List (List Ty) :=
  signatures.filter (·.length == arity)

variable {setting : Setting} {first args f g : List Ty} {signatures up : List (List Ty)}
  {position arity : Nat}

/-! ## Positions -/

theorem argumentAt_of_lt (inside : position < args.length) :
    argumentAt args position = args[position] := by
  rw [argumentAt, List.getElem?_eq_getElem inside, Option.getD_some]

theorem argumentAt_of_le (outside : args.length ≤ position) :
    argumentAt args position = .bottom := by
  rw [argumentAt, List.getElem?_eq_none outside, Option.getD_none]

theorem length_widenedAgainst (setting : Setting) (signatures : List (List Ty)) (args : List Ty) :
    (widenedAgainst setting signatures args).length = args.length := by
  rw [widenedAgainst, List.length_map, List.length_zipIdx]

theorem argumentAt_widenedAgainst (inside : position < args.length) :
    argumentAt (widenedAgainst setting signatures args) position =
      widen setting.hierarchy (argumentsAt signatures position ++ [args[position]])
        setting.options.wideningThreshold := by
  rw [argumentAt_of_lt (by rwa [length_widenedAgainst])]
  simp [widenedAgainst]

theorem argumentsAt_concat (signatures : List (List Ty)) (args : List Ty) (position : Nat) :
    argumentsAt (signatures ++ [args]) position =
      argumentsAt signatures position ++ [argumentAt args position] := by
  rw [argumentsAt, List.map_append]
  rfl

/-- Signatures of one length that agree in every position are the same. -/
theorem eq_of_argumentAt (length : f.length = g.length)
    (agree : ∀ p < g.length, argumentAt f p = argumentAt g p) : f = g := by
  refine List.ext_getElem length fun p inF inG => ?_
  rw [← argumentAt_of_lt inF, ← argumentAt_of_lt inG]
  exact agree p inG

/-- Every argument position climbs. -/
theorem Signatures.climbs (signed : Signatures setting first signatures) (position : Nat) :
    Climbs setting.hierarchy setting.options.wideningThreshold (argumentAt first position)
      (argumentsAt signatures position) := by
  induction signed with
  | first ground =>
      refine .start ?_
      by_cases inside : position < first.length
      · rw [argumentAt_of_lt inside]
        exact ground _ (List.getElem_mem inside)
      · rw [argumentAt_of_le (Nat.le_of_not_lt inside)]
        exact Ty.ground_bottom _
  | @more signatures args before ground new ih =>
      rw [argumentsAt_concat]
      by_cases inside : position < args.length
      · rw [argumentAt_widenedAgainst inside]
        exact .widened ih (ground _ (List.getElem_mem inside))
      · have outside : (widenedAgainst setting signatures args).length ≤ position := by
          rw [length_widenedAgainst]
          exact Nat.le_of_not_lt inside
        rw [argumentAt_of_le outside]
        exact .missing ih

/-- In every position a signature has the peak of that position, as far as it goes. -/
theorem Signatures.peak_concat (ordered : Hierarchy.Ordered setting.hierarchy.decls)
    (typesGround : setting.hierarchy.TypesGround) (before : Signatures setting first signatures)
    (ground : ∀ t ∈ args, t.ground setting.hierarchy = true) (inside : position < args.length) :
    peak (argumentsAt (signatures ++ [widenedAgainst setting signatures args]) position) =
      argumentAt (widenedAgainst setting signatures args) position := by
  rw [argumentsAt_concat, argumentAt_widenedAgainst inside]
  exact (before.climbs position).peak_widened ordered typesGround
    (ground _ (List.getElem_mem inside))

/-! ## Signatures rise, and no two are the same -/

theorem Signatures.rises (ordered : Hierarchy.Ordered setting.hierarchy.decls)
    (typesGround : setting.hierarchy.TypesGround)
    (signed : Signatures setting first signatures) :
    signatures.Pairwise fun f g => ∀ p < g.length,
      isSubtype setting.hierarchy (argumentAt f p) (argumentAt g p) = true := by
  induction signed with
  | first => exact List.pairwise_singleton _ _
  | @more signatures args before ground new ih =>
      refine List.pairwise_append.2 ⟨ih, List.pairwise_singleton _ _, ?_⟩
      intro f member g here p inside
      rw [List.mem_singleton.1 here] at inside ⊢
      rw [length_widenedAgainst] at inside
      rw [argumentAt_widenedAgainst inside]
      have earlier := ((before.climbs p).ascends ordered typesGround).1
      have whole := forall_mem_concat earlier (ground _ (List.getElem_mem inside))
      have known : argumentAt f p ∈ argumentsAt signatures p := List.mem_map_of_mem member
      exact (isSubtype_widen ordered typesGround whole _).2 _ (List.mem_append_left _ known)

theorem Signatures.nodup (signed : Signatures setting first signatures) :
    (signatures.map (·.map Ty.id)).Nodup := by
  induction signed with
  | first => exact List.nodup_singleton _
  | more before ground new ih =>
      rw [List.map_append, List.map_singleton]
      exact List.nodup_append.2 ⟨ih, List.nodup_singleton _, fun ids member other here same =>
        new (List.mem_singleton.1 here ▸ same ▸ member)⟩

/-! ## Counting signatures -/

theorem variety_mono (arity : Nat) (front : up <+: signatures) :
    variety arity up ≤ variety arity signatures := by
  obtain ⟨rest, rfl⟩ := front
  refine Finset.sum_le_sum fun p _ => ?_
  rw [argumentsAt, argumentsAt, List.map_append]
  exact (Ty.distinct_prefix _ _).length_le

/-- If one position reaches a new peak, there are more different types. -/
theorem variety_lt (front : up <+: signatures) (inside : position < arity)
    (moved : peak (argumentsAt up position) ≠ peak (argumentsAt signatures position)) :
    variety arity up < variety arity signatures := by
  obtain ⟨rest, rfl⟩ := front
  have kept (p : Nat) :
      Ty.distinct (argumentsAt up p) <+: Ty.distinct (argumentsAt (up ++ rest) p) := by
    rw [argumentsAt, argumentsAt, List.map_append]
    exact Ty.distinct_prefix _ _
  refine Finset.sum_lt_sum (fun p _ => (kept p).length_le)
    ⟨position, Finset.mem_range.2 inside, lt_of_le_of_ne (kept position).length_le fun same => ?_⟩
  exact moved (by rw [peak, (kept position).eq_of_length same, ← peak])

theorem variety_le (ordered : Hierarchy.Ordered setting.hierarchy.decls)
    (typesGround : setting.hierarchy.TypesGround)
    (signed : Signatures setting first signatures) (arity : Nat) :
    variety arity signatures ≤ variety arity [first] +
      arity * (setting.options.wideningThreshold + setting.hierarchy.abstractHeight + 1) := by
  have bound := Finset.sum_le_sum fun p (_ : p ∈ Finset.range arity) =>
    (signed.climbs p).length_le ordered typesGround
  rwa [Finset.sum_add_distrib, Finset.sum_const, Finset.card_range, Nat.nsmul_eq_mul] at bound

theorem Signatures.first_prefix (signed : Signatures setting first signatures) :
    [first] <+: signatures := by
  induction signed with
  | first => exact List.prefix_refl _
  | more _ _ _ ih => exact ih.trans (List.prefix_append _ _)

/-- A new signature differs from an earlier one of its length in some position. -/
theorem exists_moved (member : f ∈ signatures) (length : f.length = g.length)
    (new : g.map Ty.id ∉ signatures.map (·.map Ty.id)) :
    ∃ p < g.length, argumentAt f p ≠ argumentAt g p := by
  by_contra none
  push Not at none
  obtain rfl := eq_of_argumentAt length none
  exact new (List.mem_map_of_mem member)

/-- What is known of the newest signature `f` with `arity` arguments, and of the signatures `up` to
    it: it has the peak of every position, and from one signature to the next with as many
    arguments there were more different types. -/
structure Newest (first : List Ty) (arity : Nat) (signatures up : List (List Ty)) (f : List Ty) :
    Prop where
  front : up <+: signatures
  member : f ∈ signatures
  length : f.length = arity
  peaks : ∀ p < arity, peak (argumentsAt up p) = argumentAt f p
  counted : (ofArity arity signatures).length + variety arity [first] ≤ 1 + variety arity up

/-- With one more signature that is new there are more different types than up to the newest. -/
theorem Newest.variety_lt (newest : Newest first arity signatures up f) (length : g.length = arity)
    (new : g.map Ty.id ∉ signatures.map (·.map Ty.id))
    (peaks : ∀ p < arity, peak (argumentsAt (signatures ++ [g]) p) = argumentAt g p) :
    variety arity up < variety arity (signatures ++ [g]) := by
  obtain ⟨p, inside, different⟩ :=
    exists_moved newest.member (newest.length.trans length.symm) new
  rw [length] at inside
  refine Inference.variety_lt (newest.front.trans (List.prefix_append _ _)) inside ?_
  rwa [newest.peaks p inside, peaks p inside]

/-- Unless no signature has `arity` arguments, there is a newest one. -/
theorem Signatures.newest (ordered : Hierarchy.Ordered setting.hierarchy.decls)
    (typesGround : setting.hierarchy.TypesGround)
    (signed : Signatures setting first signatures) (arity : Nat) :
    ofArity arity signatures = [] ∨ ∃ up f, Newest first arity signatures up f := by
  induction signed with
  | first ground =>
      by_cases fits : first.length = arity
      · refine Or.inr ⟨[first], first, List.prefix_refl _, List.mem_singleton_self _, fits, ?_, ?_⟩
        · exact fun p _ => peak_singleton _
        · simp [ofArity, fits]
      · exact Or.inl (by simp [ofArity, fits])
  | @more signatures args before ground new ih =>
      have length := length_widenedAgainst setting signatures args
      have reached : ∀ p < args.length, _ := fun p inside =>
        before.peak_concat ordered typesGround ground inside
      generalize widenedAgainst setting signatures args = g at length reached new ⊢
      rw [← length] at reached
      by_cases fits : g.length = arity
      · have more : ofArity arity (signatures ++ [g]) = ofArity arity signatures ++ [g] := by
          simp [ofArity, fits]
        rw [fits] at reached
        refine Or.inr ⟨signatures ++ [g], g, List.prefix_refl _, by simp, fits, reached, ?_⟩
        rw [more, List.length_append, List.length_singleton]
        rcases ih with none | ⟨up, f, newest⟩
        · have start := before.first_prefix.trans (List.prefix_append signatures [g])
          have grown := variety_mono arity start
          rw [none, List.length_nil]
          omega
        · have grown := newest.variety_lt fits new reached
          have counted := newest.counted
          omega
      · have same : ofArity arity (signatures ++ [g]) = ofArity arity signatures := by
          simp [ofArity, fits]
        rw [same]
        refine ih.imp_right ?_
        rintro ⟨up, f, newest⟩
        exact ⟨up, f, { newest with
          front := newest.front.trans (List.prefix_append _ _)
          member := List.mem_append_left _ newest.member
          counted := same ▸ newest.counted }⟩

/-- There are at most so many signatures with `arity` arguments at one place. -/
theorem Signatures.length_ofArity_le (ordered : Hierarchy.Ordered setting.hierarchy.decls)
    (typesGround : setting.hierarchy.TypesGround)
    (signed : Signatures setting first signatures) (arity : Nat) :
    (ofArity arity signatures).length ≤ 1 +
      arity * (setting.options.wideningThreshold + setting.hierarchy.abstractHeight + 1) := by
  rcases signed.newest ordered typesGround arity with none | ⟨up, f, newest⟩
  · rw [none]
    exact Nat.zero_le _
  · have grown := variety_mono arity newest.front
    have bound := variety_le ordered typesGround signed arity
    have counted := newest.counted
    omega

end Multimethod.Inference
