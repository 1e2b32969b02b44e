import Mathlib.Data.Set.Finite.Basic
import Mathlib.Order.WellFounded
import Multimethod.Proofs.Dispatch.Full
import Multimethod.Proofs.Dispatch.Lookup

/-!
# The most specific method

Specificity is a strict partial order on methods whose parameters are well-formed, since erased
parameter types are ground and compare transitively. One of finitely many methods that apply fully
is therefore a most specific one, and if there is just one such method, it is more specific than
all the others. Nothing of this depends on the order in which the methods were registered.
-/

namespace Multimethod

/-- Whether the parameter types of a method are well-formed. -/
def Method.paramsWellFormed (h : Hierarchy) (m : Method) : Bool :=
  m.params.all fun p => p.type.wellFormed h

namespace Dispatch

open Multimethod.Lattice

variable {h : Hierarchy} {table table' : MethodTable} {name : String} {args as bs cs : List Ty}
  {m a b c : Method} {found full full' : List Match}

/-! ## Specificity -/

theorem paramsBelow_iff :
    paramsBelow h as bs = true ↔ List.Forall₂ (fun x y => isSubtype h x y = true) as bs := by
  induction as generalizing bs with
  | nil => cases bs <;> simp [paramsBelow]
  | cons x as ih => cases bs <;> simp [paramsBelow, ih]

theorem paramsBelow_refl (h : Hierarchy) (as : List Ty) : paramsBelow h as as = true :=
  paramsBelow_iff.2 (List.forall₂_same.2 fun x _ => isSubtype_refl h x)

theorem paramsBelow_trans (ordered : Hierarchy.Ordered h.decls) (ha : ∀ t ∈ as, t.ground h = true)
    (hb : ∀ t ∈ bs, t.ground h = true) (hc : ∀ t ∈ cs, t.ground h = true)
    (first : paramsBelow h as bs = true) (second : paramsBelow h bs cs = true) :
    paramsBelow h as cs = true := by
  rw [paramsBelow_iff] at *
  exact forall₂_isSubtype_trans ordered ha hb hc first second

theorem paramsWellFormed_of_wellFormed (wellFormed : m.WellFormed h) :
    m.paramsWellFormed h = true :=
  List.all_eq_true.2 fun p hp => Ty.wellFormed_of_scoped
    (fun v hv => (wellFormed.clause.bounds v hv).ground) p.type (wellFormed.inScope p hp)

theorem ground_erasedParams (formed : m.paramsWellFormed h = true) :
    ∀ t ∈ erasedParams m, t.ground h = true :=
  List.forall_mem_map.2 fun p hp =>
    Ty.ground_erase_of_wellFormed p.type (List.all_eq_true.1 formed p hp)

theorem moreSpecific_iff :
    moreSpecific h a b = true ↔ paramsBelow h (erasedParams a) (erasedParams b) = true ∧
      (paramsBelow h (erasedParams b) (erasedParams a) = false ∨
        (repeatsTypeVar a = true ∧ repeatsTypeVar b = false)) := by
  simp only [moreSpecific]
  generalize paramsBelow h (erasedParams a) (erasedParams b) = below
  generalize paramsBelow h (erasedParams b) (erasedParams a) = above
  cases below <;> cases above <;> simp

theorem not_moreSpecific_self (h : Hierarchy) (m : Method) : ¬ moreSpecific h m m = true := by
  rw [moreSpecific_iff, paramsBelow_refl]
  rintro ⟨-, notBelow | ⟨repeats, plain⟩⟩
  · cases notBelow
  · rw [repeats] at plain
    cases plain

theorem moreSpecific_trans (ordered : Hierarchy.Ordered h.decls)
    (ha : a.paramsWellFormed h = true) (hb : b.paramsWellFormed h = true)
    (hc : c.paramsWellFormed h = true) (ab : moreSpecific h a b = true)
    (bc : moreSpecific h b c = true) : moreSpecific h a c = true := by
  rw [moreSpecific_iff] at *
  obtain ⟨below, strict⟩ := ab
  obtain ⟨below', strict'⟩ := bc
  have ga := ground_erasedParams ha
  have gb := ground_erasedParams hb
  have gc := ground_erasedParams hc
  refine ⟨paramsBelow_trans ordered ga gb gc below below', ?_⟩
  cases above : paramsBelow h (erasedParams c) (erasedParams a) with
  | false => exact Or.inl rfl
  | true =>
      -- all three signatures are equivalent, so that both steps count repetitions
      have ba := paramsBelow_trans ordered gb gc ga below' above
      have cb := paramsBelow_trans ordered gc ga gb above below
      rw [ba] at strict
      rw [cb] at strict'
      have first := strict.resolve_left (by simp)
      have second := strict'.resolve_left (by simp)
      rw [first.2] at second
      cases second.1

/-! ## Fully applicable methods -/

theorem mem_matching {x : Match} :
    x ∈ matching h table name args ↔
      x.method ∈ table.methodsOf name ∧ matchMethod h x.method args = some x := by
  rw [matching, List.mem_filterMap]
  constructor
  · rintro ⟨m, member, matched⟩
    obtain ⟨rfl, -⟩ := method_of_matchMethod matched
    exact ⟨member, matched⟩
  · rintro ⟨member, matched⟩
    exact ⟨x.method, member, matched⟩

theorem mem_fullMatches {x : Match} :
    x ∈ fullMatches found ↔ x ∈ found ∧ x.applicability = .full := by
  simp [fullMatches]

theorem mem_maximal {x : Match} :
    x ∈ maximal h full ↔
      x ∈ full ∧ ∀ y ∈ full, ¬ moreSpecific h y.method x.method = true := by
  simp [maximal]

/-- Of well-formed methods, each is a most specific one or less specific than such a one. -/
theorem exists_maximal (ordered : Hierarchy.Ordered h.decls) 
    (formed : ∀ x ∈ full, x.method.paramsWellFormed h = true) {x : Match} (hx : x ∈ full) :
    ∃ y ∈ maximal h full, y = x ∨ moreSpecific h y.method x.method = true := by
  let Above : { x // x ∈ full } → { x // x ∈ full } → Prop :=
    fun y x => moreSpecific h y.1.method x.1.method = true
  have : Finite { x // x ∈ full } := full.finite_toSet
  have : Std.Irrefl Above := ⟨fun x => not_moreSpecific_self h x.1.method⟩
  have : IsTrans { x // x ∈ full } Above := ⟨fun a b c => moreSpecific_trans ordered
    (formed a.1 a.2) (formed b.1 b.2) (formed c.1 c.2)⟩
  have wellFounded : WellFounded Above := Finite.wellFounded_of_trans_of_irrefl Above
  obtain ⟨⟨y, hy⟩, above, highest⟩ := wellFounded.has_min
    { y | y.1 = x ∨ moreSpecific h y.1.method x.method = true } ⟨⟨x, hx⟩, Or.inl rfl⟩
  refine ⟨y, mem_maximal.2 ⟨hy, fun z hz zy => ?_⟩, above⟩
  refine highest ⟨z, hz⟩ (Or.inr ?_) zy
  rcases above with rfl | above
  · exact zy
  · exact moreSpecific_trans ordered (formed z hz) (formed y hy) (formed x hx) zy above

/-- A lookup answers all matches if none applies fully, and else the most specific one of those
    that do, with the more specific ones of the others behind it. -/
theorem lookup_eq_matched (ordered : Hierarchy.Ordered h.decls)
    (formed : ∀ m ∈ table.methods, m.paramsWellFormed h = true)
    (answer : lookup h table name args = .matched found) :
    (fullMatches (matching h table name args) = [] ∧ found = matching h table name args) ∨
      ∃ best, maximal h (fullMatches (matching h table name args)) = [best] ∧
        found = best :: (matching h table name args).filter fun m =>
          m.applicability == .partly && moreSpecific h m.method best.method := by
  rw [lookup_eq] at answer
  by_cases nothing : (matching h table name args).isEmpty = true
  · rw [if_pos nothing] at answer
    cases answer
  · rw [if_neg nothing] at answer
    by_cases noFull : (fullMatches (matching h table name args)).isEmpty = true
    · rw [if_pos noFull] at answer
      cases answer
      exact Or.inl ⟨List.isEmpty_iff.1 noFull, rfl⟩
    · rw [if_neg noFull] at answer
      rw [List.isEmpty_iff] at noFull
      obtain ⟨x, hx⟩ := List.exists_mem_of_ne_nil _ noFull
      have each : ∀ y ∈ fullMatches (matching h table name args), y.method.paramsWellFormed h = true :=
        fun y hy => formed _ (mem_methods_of_mem_methodsOf
          (mem_matching.1 (mem_fullMatches.1 hy).1).1)
      obtain ⟨top, member, -⟩ := exists_maximal ordered each hx
      split at answer
      case h_1 empty =>
          rw [empty] at member
          cases member
      case h_2 best single =>
          cases answer
          exact Or.inr ⟨best, single, rfl⟩
      case h_3 => cases answer

/-! ## One most specific method, or several -/

theorem maximal_ne_nil (ordered : Hierarchy.Ordered h.decls)
    (formed : ∀ x ∈ full, x.method.paramsWellFormed h = true) (applies : full ≠ []) :
    maximal h full ≠ [] := by
  obtain ⟨x, hx⟩ := List.exists_mem_of_ne_nil _ applies
  obtain ⟨y, hy, -⟩ := exists_maximal ordered formed hx
  exact List.ne_nil_of_mem hy

theorem pairwise_maximal (h : Hierarchy) (full : List Match) :
    (maximal h full).Pairwise fun x y =>
      ¬ moreSpecific h x.method y.method = true ∧ ¬ moreSpecific h y.method x.method = true :=
  List.pairwise_of_forall_mem_list fun x hx y hy =>
    ⟨(mem_maximal.1 hy).2 x (mem_maximal.1 hx).1, (mem_maximal.1 hx).2 y (mem_maximal.1 hy).1⟩

/-- The only most specific method is more specific than all the others. -/
theorem others_of_maximal_eq (ordered : Hierarchy.Ordered h.decls)
    (formed : ∀ x ∈ full, x.method.paramsWellFormed h = true) {best : Match}
    (only : maximal h full = [best]) :
    ∃ others, full.Perm (best :: others) ∧
      ∀ x ∈ others, moreSpecific h best.method x.method = true := by
  let top : Match → Bool := fun m => !full.any fun other => moreSpecific h other.method m.method
  have parted := List.filter_append_perm top full
  rw [show full.filter top = [best] from only] at parted
  refine ⟨full.filter fun m => !top m, parted.symm, fun x member => ?_⟩
  obtain ⟨hx, notTop⟩ := List.mem_filter.1 member
  obtain ⟨y, hy, above⟩ := exists_maximal ordered formed hx
  rw [only, List.mem_singleton] at hy
  subst hy
  rcases above with rfl | above
  · have isTop : y ∈ full.filter top :=
      (show full.filter top = [y] from only) ▸ List.mem_singleton_self y
    rw [(List.mem_filter.1 isTop).2] at notTop
    cases notTop
  · exact above

/-- Where some method applies fully, the answer depends on how many most specific ones there
    are. -/
theorem lookup_of_fullMatches (applies : fullMatches (matching h table name args) ≠ []) :
    lookup h table name args =
      match maximal h (fullMatches (matching h table name args)) with
      | [] => .matched (fullMatches (matching h table name args))
      | [best] =>
          .matched (best :: (matching h table name args).filter fun m =>
            m.applicability == .partly && moreSpecific h m.method best.method)
      | several => .ambiguous (several.map (·.method)) := by
  have some : matching h table name args ≠ [] := by
    intro nothing
    rw [nothing] at applies
    exact applies rfl
  have answer := lookup_eq h table name args
  rw [if_neg (by rwa [List.isEmpty_iff]), if_neg (by rwa [List.isEmpty_iff])] at answer
  exact answer

/-! ## The order of registration -/

namespace Selection

/-- Whether two answers are of one kind and name the same methods, as often, and each with the
    same bindings and the same applicability. -/
inductive SameMethods : Selection → Selection → Prop
  | noMethod : SameMethods .noMethod .noMethod
  | ambiguous {candidates candidates' : List Method} (same : candidates.Perm candidates') :
      SameMethods (.ambiguous candidates) (.ambiguous candidates')
  | matched {found found' : List Match} (same : found.Perm found') :
      SameMethods (.matched found) (.matched found')

end Selection

theorem matching_perm (same : table.methods.Perm table'.methods) (name : String)
    (args : List Ty) : (matching h table name args).Perm (matching h table' name args) :=
  (same.filter _).filterMap _

theorem maximal_perm (same : full.Perm full') : (maximal h full).Perm (maximal h full') := by
  have tops : (fun m : Match => !full.any fun other => moreSpecific h other.method m.method) =
      fun m : Match => !full'.any fun other => moreSpecific h other.method m.method :=
    funext fun m => by rw [same.any_eq]
  rw [maximal, maximal, tops]
  exact same.filter _

/-- Tables with the same methods answer the same, in whatever order these were registered. -/
theorem lookup_perm (same : table.methods.Perm table'.methods) (name : String) (args : List Ty) :
    (lookup h table name args).SameMethods (lookup h table' name args) := by
  have sameFound := matching_perm (h := h) same name args
  have sameFull : (fullMatches (matching h table name args)).Perm
      (fullMatches (matching h table' name args)) := sameFound.filter _
  have sameTop := maximal_perm (h := h) sameFull
  rw [lookup_eq, lookup_eq, ← sameFound.isEmpty_eq, ← sameFull.isEmpty_eq]
  by_cases nothing : (matching h table name args).isEmpty = true
  · rw [if_pos nothing, if_pos nothing]
    exact .noMethod
  rw [if_neg nothing, if_neg nothing]
  by_cases noFull : (fullMatches (matching h table name args)).isEmpty = true
  · rw [if_pos noFull, if_pos noFull]
    exact .matched sameFound
  rw [if_neg noFull, if_neg noFull]
  generalize maximal h (fullMatches (matching h table name args)) = top at sameTop
  generalize maximal h (fullMatches (matching h table' name args)) = top' at sameTop
  match top, top', sameTop.length_eq with
  | [], [], _ => exact .matched sameFull
  | [best], [best'], _ =>
      obtain rfl : best = best' := by simpa using sameTop
      exact .matched ((sameFound.filter _).cons best)
  | _ :: _ :: _, _ :: _ :: _, _ => exact .ambiguous (sameTop.map _)

/-! ## What a lookup selects -/

/-- Specificity is a strict order on methods with well-formed parameters. Where some of them apply
    fully to a call, one of them is a most specific one. If it is the only one, it is selected:
    it is more specific than all others that apply fully, and behind it stand those that apply
    partly and are more specific than it. If there are several, the call is ambiguous between
    them. Registering the methods in another order changes none of this. -/
theorem lookup_selects_most_specific (built : h.Declared) :
    (∀ m, ¬ moreSpecific h m m = true) ∧
    (∀ a b c : Method, a.paramsWellFormed h = true → b.paramsWellFormed h = true →
      c.paramsWellFormed h = true → moreSpecific h a b = true → moreSpecific h b c = true →
        moreSpecific h a c = true) ∧
    ∀ (table : MethodTable) (name : String) (args : List Ty),
      (∀ m ∈ table.methods, m.paramsWellFormed h = true) →
      (fullMatches (matching h table name args) ≠ [] →
        maximal h (fullMatches (matching h table name args)) ≠ [] ∧
        (∀ best, maximal h (fullMatches (matching h table name args)) = [best] →
          lookup h table name args =
            .matched (best :: (matching h table name args).filter fun m =>
              m.applicability == .partly && moreSpecific h m.method best.method) ∧
          ∃ others, (fullMatches (matching h table name args)).Perm (best :: others) ∧
            ∀ x ∈ others, moreSpecific h best.method x.method = true) ∧
        ((maximal h (fullMatches (matching h table name args))).length ≠ 1 →
          lookup h table name args =
            .ambiguous ((maximal h (fullMatches (matching h table name args))).map (·.method)) ∧
          (maximal h (fullMatches (matching h table name args))).Pairwise fun x y =>
            ¬ moreSpecific h x.method y.method = true ∧
              ¬ moreSpecific h y.method x.method = true)) ∧
      ∀ table' : MethodTable, table.methods.Perm table'.methods →
        (lookup h table name args).SameMethods (lookup h table' name args) := by
  have ordered := built.ordered
  refine ⟨not_moreSpecific_self h, fun a b c ha hb hc => moreSpecific_trans ordered ha hb hc, ?_⟩
  intro table name args formed
  refine ⟨fun applies => ?_, fun table' same => lookup_perm same name args⟩
  have each : ∀ x ∈ fullMatches (matching h table name args),
      x.method.paramsWellFormed h = true := fun x hx =>
    formed _ (mem_methods_of_mem_methodsOf (mem_matching.1 (mem_fullMatches.1 hx).1).1)
  have inhabited := maximal_ne_nil ordered each applies
  refine ⟨inhabited, fun best only => ⟨?_, others_of_maximal_eq ordered each only⟩,
    fun several => ⟨?_, pairwise_maximal h _⟩⟩
  · rw [lookup_of_fullMatches applies, only]
  · rw [lookup_of_fullMatches applies]
    split
    case h_1 nothing => exact absurd nothing inhabited
    case h_2 only => exact absurd (by rw [only]; rfl) several
    case h_3 => rfl

/-- A method `f` with one parameter. -/
def unary (typeParams : List TypeVar) (param : Ty) : Method where
  name := "f"
  params := [⟨"x", param⟩]
  typeParams := typeParams
  returns := none
  body := none
  intrinsic := none
  loc := default

/-- The methods `f(x)`, `f(x::Number)`, `f(x::Int)` and `f(x::T) where T <: Number`. -/
def unaryMethods : List Method :=
  [unary [] .any, unary [] (.abstract "Number"), unary [] .int,
    unary [⟨"T", .abstract "Number"⟩] (.typeVar "T" (.abstract "Number"))]

/-- An integer selects `f(x::Int)`, in whatever order the methods are registered; for numbers of
    any kind `f(x::Number)` and `f(x::T)` are ambiguous. -/
theorem lookup_selects_most_specific_unary :
    numberHierarchy.Declared ∧ (∀ m ∈ unaryMethods, m.paramsWellFormed numberHierarchy = true) ∧
      moreSpecific numberHierarchy (unary [] .int) (unary [] .any) = true ∧
      (∃ best rest, lookup numberHierarchy (.ofMethods unaryMethods) "f" [.int] =
        .matched (best :: rest)) ∧
      (∃ candidates, lookup numberHierarchy (.ofMethods unaryMethods) "f" [.abstract "Number"] =
        .ambiguous candidates ∧ candidates.length = 2) ∧
      (lookup numberHierarchy (.ofMethods unaryMethods) "f" [.int]).SameMethods
        (lookup numberHierarchy (.ofMethods unaryMethods.reverse) "f" [.int]) := by
  have formed : ∀ m ∈ unaryMethods, m.paramsWellFormed numberHierarchy = true := by
    decide +kernel
  obtain ⟨-, transitive, selects⟩ := lookup_selects_most_specific numberHierarchy_declared
  refine ⟨numberHierarchy_declared, formed, ?_, ?_, ?_, ?_⟩
  · exact transitive (unary [] .int) (unary [] (.abstract "Number")) (unary [] .any)
      (by decide +kernel) (by decide +kernel) (by decide +kernel) (by decide +kernel)
      (by decide +kernel)
  · have single : (maximal numberHierarchy (fullMatches (matching numberHierarchy
        (.ofMethods unaryMethods) "f" [.int]))).length = 1 := by decide +kernel
    obtain ⟨best, only⟩ := List.length_eq_one_iff.1 single
    have applies : fullMatches (matching numberHierarchy (.ofMethods unaryMethods) "f" [.int]) ≠
        [] := by
      intro nothing
      rw [nothing] at only
      cases only
    obtain ⟨answer, -⟩ := ((selects (.ofMethods unaryMethods) "f" [.int] formed).1 applies).2.1
      best only
    exact ⟨best, _, answer⟩
  · have several : (maximal numberHierarchy (fullMatches (matching numberHierarchy
        (.ofMethods unaryMethods) "f" [.abstract "Number"]))).length = 2 := by decide +kernel
    have applies : fullMatches (matching numberHierarchy (.ofMethods unaryMethods) "f"
        [.abstract "Number"]) ≠ [] := by
      intro nothing
      rw [nothing] at several
      cases several
    obtain ⟨answer, -⟩ := ((selects (.ofMethods unaryMethods) "f" [.abstract "Number"]
      formed).1 applies).2.2 (by omega)
    exact ⟨_, answer, by rw [List.length_map, several]⟩
  · exact (selects (.ofMethods unaryMethods) "f" [.int] formed).2 (.ofMethods unaryMethods.reverse)
      unaryMethods.reverse_perm.symm

end Dispatch

end Multimethod
