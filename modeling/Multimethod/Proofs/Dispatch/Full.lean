import Multimethod.Dispatch.Table
import Multimethod.Proofs.Dispatch.Matching
import Multimethod.Proofs.Ty.Substitution

/-!
# Full applicability

A method applies fully when matching finds every argument covered. For a parameter whose
variables stand alone and once this is a plain comparison with one type, the cap of the parameter.
-/

namespace Multimethod.Dispatch

open Multimethod.Lattice

variable {h : Hierarchy} {clause : List TypeVar} {bindings : Assoc Ty} {param arg cap : Ty}
  {params args caps : List Ty} {m : Method} {name : String}

theorem method_of_matchMethod {x : Match} (matched : matchMethod h m args = some x) :
    x.method = m ∧ x.applicability ≠ .none := by
  unfold matchMethod at matched
  split at matched
  · cases matched
  · cases outcome : matchArgs h (m.params.map (·.type)) args [] with
    | mk applicability bindings =>
        rw [outcome] at matched
        cases applicability with
        | none => cases matched
        | full =>
            cases matched
            exact ⟨rfl, by simp⟩
        | partly =>
            cases matched
            exact ⟨rfl, by simp⟩

/-- Whether a method applies fully to arguments. -/
def AppliesFully (h : Hierarchy) (m : Method) (args : List Ty) : Prop :=
  ∃ x, matchMethod h m args = some x ∧ x.applicability = .full

theorem appliesFully_iff_matchArgs :
    AppliesFully h m args ↔ m.params.length = args.length ∧
      (matchArgs h (m.params.map (·.type)) args []).1 = .full := by
  unfold AppliesFully matchMethod
  by_cases length : m.params.length = args.length
  · rw [if_neg (not_not.2 length)]
    cases matchArgs h (m.params.map (·.type)) args [] with
    | mk applicability bindings => cases applicability <;> simp [length]
  · rw [if_pos length]
    simp [length]

theorem both_eq_full {x y : Applicability} : x.both y = .full ↔ x = .full ∧ y = .full := by
  cases x <;> cases y <;> simp [Applicability.both]

theorem forall₂_isSubtype_trans (ordered : Hierarchy.Ordered h.decls) {as bs cs : List Ty}
    (ha : ∀ t ∈ as, t.ground h = true) (hb : ∀ t ∈ bs, t.ground h = true)
    (hc : ∀ t ∈ cs, t.ground h = true)
    (first : List.Forall₂ (fun x y => isSubtype h x y = true) as bs)
    (second : List.Forall₂ (fun x y => isSubtype h x y = true) bs cs) :
    List.Forall₂ (fun x y => isSubtype h x y = true) as cs := by
  induction first generalizing cs with
  | nil => exact second
  | cons xy rest ih =>
      rw [List.forall_mem_cons] at ha hb
      cases second with
      | cons yz rest' =>
          rw [List.forall_mem_cons] at hc
          exact .cons (isSubtype_trans ordered ha.1 hb.1 hc.1 xy yz) (ih ha.2 hb.2 hc.2 rest')

/-! ## Variables that matching leaves alone -/

theorem find?_matchVar {bound : Ty} {other : String} (different : name ≠ other) :
    (matchVar h name bound arg bindings).2.find? other = bindings.find? other := by
  unfold matchVar
  split
  · dsimp only
    split
    · rfl
    · rw [Assoc.find?_insert, if_neg different]
  · split
    · rfl
    · dsimp only
      split
      · rfl
      · rw [Assoc.find?_insert, if_neg different]

theorem find?_matchArgs
    (each : ∀ p ∈ params, ∀ arg bindings, name ∉ p.varNames →
      (matchParam h p arg bindings).2.find? name = bindings.find? name)
    (other : name ∉ params.flatMap Ty.varNames) :
    (matchArgs h params args bindings).2.find? name = bindings.find? name := by
  induction params generalizing args bindings with
  | nil => rw [matchArgs.eq_def]
  | cons p params ih =>
      cases args with
      | nil => rw [matchArgs.eq_def]
      | cons arg args =>
          rw [List.forall_mem_cons] at each
          rw [List.flatMap_cons, List.mem_append, not_or] at other
          rw [matchArgs_cons, ih each.2 other.2]
          exact each.1 arg bindings other.1

theorem allVarNames_eq_flatMap (ts : List Ty) : Ty.allVarNames ts = ts.flatMap Ty.varNames := by
  induction ts with
  | nil => rfl
  | cons t ts ih => rw [Ty.allVarNames, ih, List.flatMap_cons]

/-- Matching a parameter binds no variable that it does not mention. -/
theorem find?_matchParam (param arg : Ty) (bindings : Assoc Ty) (other : name ∉ param.varNames) :
    (matchParam h param arg bindings).2.find? name = bindings.find? name := by
  induction total : param.size using Nat.strongRecOn generalizing param arg bindings with
  | ind n ih =>
      cases compared h param arg with
      | named key bound arg =>
          rw [matchParam_typeVar]
          exact find?_matchVar fun same => other (by simp [Ty.varNames, same])
      | @inside key ps qs length vars =>
          rw [matchParam_inside vars length]
          rw [Ty.varNames, allVarNames_eq_flatMap] at other
          refine find?_matchArgs (fun p hp arg bindings unmentioned => ?_) other
          have := Ty.size_lt_sizes hp
          exact ih p.size (by simp only [Ty.size] at total; omega) p arg bindings unmentioned rfl
      | whole matched => rw [matched]

/-! ## Caps -/

/-- Whether a parameter, as long as its variables are not bound, applies fully to exactly the
    arguments below a type. -/
def Capped (h : Hierarchy) (param cap : Ty) : Prop :=
  ∀ arg bindings, arg.Solid h → (∀ n ∈ param.varNames, bindings.find? n = none) →
    ((matchParam h param arg bindings).1 = .full ↔ isSubtype h arg cap = true)

theorem matchArgs_eq_full_iff (capped : List.Forall₂ (Capped h) params caps)
    (apart : (params.flatMap Ty.varNames).Nodup)
    (free : ∀ n ∈ params.flatMap Ty.varNames, bindings.find? n = none)
    (solid : ∀ t ∈ args, t.Solid h) (length : params.length = args.length) :
    (matchArgs h params args bindings).1 = .full ↔
      List.Forall₂ (fun arg cap => isSubtype h arg cap = true) args caps := by
  induction capped generalizing args bindings with
  | nil =>
      rw [List.length_eq_zero_iff.1 length.symm, matchArgs.eq_def]
      simp
  | @cons param cap params caps first rest ih =>
      cases args with
      | nil => cases length
      | cons arg args =>
          rw [List.forall_mem_cons] at solid
          rw [List.flatMap_cons] at apart free
          obtain ⟨-, apart, disjoint⟩ := List.nodup_append.1 apart
          -- the first parameter binds no variable of the others
          have unbound : ∀ n ∈ params.flatMap Ty.varNames,
              (matchParam h param arg bindings).2.find? n = none := by
            intro n hn
            rw [find?_matchParam param arg bindings fun member => disjoint n member n hn rfl]
            exact free n (List.mem_append_right _ hn)
          rw [matchArgs_cons, both_eq_full, List.forall₂_cons,
            first arg bindings solid.1 fun n hn => free n (List.mem_append_left _ hn),
            ih apart unbound solid.2 (Nat.succ.inj length)]

theorem nodup_of_not_repeatsTypeVar (plain : repeatsTypeVar m = false) :
    ((m.params.map (·.type)).flatMap Ty.varNames).Nodup := by
  rw [List.nodup_iff_count_le_one]
  intro n
  by_contra several
  have member : n ∈ (m.params.map (·.type)).flatMap Ty.varNames := by
    rw [← List.count_pos_iff]
    omega
  rw [List.flatMap_map] at several member
  simp only [repeatsTypeVar, List.any_eq_false, decide_eq_true_eq] at plain
  exact plain n member (by omega)

/-- A method without repeated variables applies fully to what lies below the caps of its
    parameters. -/
theorem appliesFully_iff (capped : List.Forall₂ (Capped h) (m.params.map (·.type)) caps)
    (single : repeatsTypeVar m = false) (solid : ∀ t ∈ args, t.Solid h) :
    AppliesFully h m args ↔
      List.Forall₂ (fun arg cap => isSubtype h arg cap = true) args caps := by
  have sizes : m.params.length = caps.length := by
    simpa using capped.length_eq
  rw [appliesFully_iff_matchArgs]
  constructor
  · rintro ⟨length, full⟩
    exact (matchArgs_eq_full_iff capped (nodup_of_not_repeatsTypeVar single) (fun _ _ => rfl) solid
      (by simpa using length)).1 full
  · intro below
    have length : m.params.length = args.length := sizes.trans below.length_eq.symm
    exact ⟨length, (matchArgs_eq_full_iff capped (nodup_of_not_repeatsTypeVar single)
      (fun _ _ => rfl) solid (by simpa using length)).2 below⟩

theorem applicabilityOf_eq_full_iff :
    applicabilityOf h param arg = .full ↔ isSubtype h arg param = true := by
  unfold applicabilityOf
  split
  case isTrue below => simp [below]
  case isFalse notBelow =>
      simp only [notBelow, iff_false, Bool.false_eq_true]
      split <;> simp

theorem capped_of_closed (closed : param.hasVars = false) : Capped h param param := by
  intro arg bindings _ _
  rw [matchParam.eq_def]
  simp only [closed, Bool.not_false, if_true]
  exact applicabilityOf_eq_full_iff

/-- A variable that is not bound yet applies fully to what lies below its bound. -/
theorem capped_typeVar (name : String) (bound : Ty) : Capped h (.typeVar name bound) bound := by
  intro arg bindings ha free
  have unbound := free name (by simp [Ty.varNames])
  rw [matchParam_typeVar]
  simp only [matchVar, unbound]
  by_cases below : isSubtype h arg bound = true
  · have whole : meet h arg bound = arg := by
      rw [meet.eq_def, if_pos below]
    have notBottom : arg.isBottom = false := by
      have free := ha.bottomFree
      cases arg <;> simp_all [Ty.isBottom, Ty.bottomFree]
    simp [whole, notBottom, below]
  · simp only [below, Bool.false_eq_true, if_false, iff_false]
    split <;> simp

/-- Only the top is erased to the top among the ground types. -/
theorem eq_any_of_erase {t : Ty} (ground : t.ground h = true) (top : t.erase = .any) :
    t = .any := by
  rw [← Ty.erase_of_ground t ground, top]

/-- A parameter that is erased to the top takes every argument. -/
theorem capped_any_of_erase (declared : Clause h clause) (inScope : param.Scoped h clause)
    (top : param.erase = .any) : Capped h param .any := by
  intro arg bindings ha free
  cases compared h param arg with
  | named name bound =>
      have bound_any : bound = .any :=
        eq_any_of_erase (declared.bounds _ inScope).ground (by simpa [Ty.erase] using top)
      subst bound_any
      exact capped_typeVar name .any arg bindings ha free
  | @inside name ps qs length vars =>
      rw [Ty.erase, if_pos vars] at top
      cases top
  | whole matched =>
      have outline : param.outline = .any := by
        unfold Ty.outline
        split
        case isTrue => exact top
        case isFalse closed =>
            exact eq_any_of_erase (Ty.ground_of_scoped param inScope (Bool.not_eq_true _ ▸ closed))
              top
      rw [matched, outline]
      exact applicabilityOf_eq_full_iff

/-- A method without repeated variables whose parameters are all erased to the top applies fully
    to everything. -/
theorem appliesFully_of_erase_any (wellFormed : m.WellFormed h) (plain : repeatsTypeVar m = false)
    (top : ∀ t ∈ erasedParams m, t = .any) (length : m.params.length = args.length)
    (solid : ∀ t ∈ args, t.Solid h) : AppliesFully h m args := by
  have capped : List.Forall₂ (Capped h) (m.params.map (·.type)) (m.params.map fun _ => .any) := by
    rw [List.forall₂_map_left_iff, List.forall₂_map_right_iff, List.forall₂_same]
    exact fun p hp => capped_any_of_erase wellFormed.clause (wellFormed.inScope p hp)
      (top _ (List.mem_map.2 ⟨p, hp, rfl⟩))
  rw [appliesFully_iff capped plain solid]
  exact List.forall₂_iff_get.2 ⟨by simp [length], fun i _ _ => by simp⟩

/-! ## Variables that stand alone -/

/-- The type that caps a parameter whose variable, if it has one, stands alone. -/
def capOf : Ty → Ty
  | .typeVar _ bound => bound
  | t => t

theorem capOf_of_closed (closed : param.hasVars = false) : capOf param = param := by
  cases param with
  | typeVar name bound => cases closed
  | _ => rfl

/-- Methods whose variables stand alone as parameter types, each once. -/
structure Bare (m : Method) : Prop where
  alone : ∀ p ∈ m.params, p.type.hasVars = true → ∃ name bound, p.type = .typeVar name bound
  once : repeatsTypeVar m = false

theorem Bare.capped (bare : Bare m) :
    List.Forall₂ (Capped h) (m.params.map (·.type)) (m.params.map fun p => capOf p.type) := by
  rw [List.forall₂_map_left_iff, List.forall₂_map_right_iff, List.forall₂_same]
  intro p hp
  cases vars : p.type.hasVars with
  | true =>
      obtain ⟨name, bound, equal⟩ := bare.alone p hp vars
      rw [equal]
      exact capped_typeVar name bound
  | false =>
      rw [capOf_of_closed vars]
      exact capped_of_closed vars

/-- Such a method that applies fully to some arguments applies fully to all narrower ones. -/
theorem Bare.appliesFully_of_narrower (ordered : Hierarchy.Ordered h.decls) (bare : Bare m)
    (wellFormed : m.WellFormed h) {a b : List Ty} (solidA : ∀ t ∈ a, t.Solid h)
    (solidB : ∀ t ∈ b, t.Solid h)
    (below : List.Forall₂ (fun x y => isSubtype h x y = true) a b)
    (full : AppliesFully h m b) : AppliesFully h m a := by
  have caps : ∀ t ∈ m.params.map (fun p => capOf p.type), t.ground h = true := by
    refine List.forall_mem_map.2 fun p hp => ?_
    have inScope := wellFormed.inScope p hp
    cases vars : p.type.hasVars with
    | true =>
        obtain ⟨name, bound, equal⟩ := bare.alone p hp vars
        rw [equal] at inScope ⊢
        exact (wellFormed.clause.bounds _ inScope).ground
    | false =>
        rw [capOf_of_closed vars]
        exact Ty.ground_of_scoped p.type inScope vars
  rw [appliesFully_iff bare.capped bare.once solidB] at full
  rw [appliesFully_iff bare.capped bare.once solidA]
  exact forall₂_isSubtype_trans ordered (fun t ht => (solidA t ht).ground)
    (fun t ht => (solidB t ht).ground) caps below full

end Multimethod.Dispatch
