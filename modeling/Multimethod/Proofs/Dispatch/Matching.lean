import Multimethod.Dispatch.Matching
import Multimethod.Proofs.Assoc
import Multimethod.Proofs.Lattice.Overlap

/-!
# What it means to match

Matching binds the variables of a where-clause as it meets them and narrows them further on. Its
outcome can be told without following the bindings: a method matches exactly if there is an
assignment of its variables under which every argument has something in common with its
parameter. The bindings that matching ends with are such an assignment, and any other one stays
below the bindings throughout.
-/

namespace Multimethod.Dispatch

open Multimethod.Lattice

variable {h : Hierarchy} {clause : List TypeVar} {bindings next assigned : Assoc Ty}
  {param arg bound t : Ty} {params args ps qs : List Ty} {name : String}

/-! ## Assignments -/

/-- Variables that are bound to types without the bottom, each below its bound. -/
structure Proper (h : Hierarchy) (clause : List TypeVar) (bindings : Assoc Ty) : Prop where
  solid : ∀ name t, bindings.find? name = some t → t.Solid h
  below : ∀ v ∈ clause, ∀ t, bindings.find? v.name = some t → isSubtype h t v.bound = true

/-- Whether `next` binds what `bindings` binds, to types below. -/
def Refines (h : Hierarchy) (next bindings : Assoc Ty) : Prop :=
  ∀ name t, bindings.find? name = some t →
    ∃ t', next.find? name = some t' ∧ isSubtype h t' t = true

theorem proper_nil (h : Hierarchy) (clause : List TypeVar) : Proper h clause [] where
  solid := by simp
  below := by simp

theorem refines_nil (h : Hierarchy) (next : Assoc Ty) : Refines h next [] := by
  intro name t found
  cases found

theorem Refines.refl (h : Hierarchy) (bindings : Assoc Ty) : Refines h bindings bindings :=
  fun _ t found => ⟨t, found, isSubtype_refl h t⟩

theorem Refines.trans (ordered : Hierarchy.Ordered h.decls) {last : Assoc Ty}
    (properLast : Proper h clause last) (properNext : Proper h clause next)
    (proper : Proper h clause bindings) (second : Refines h last next)
    (first : Refines h next bindings) : Refines h last bindings := by
  intro name t found
  obtain ⟨t', found', below⟩ := first name t found
  obtain ⟨t'', found'', below'⟩ := second name t' found'
  exact ⟨t'', found'', isSubtype_trans ordered (properLast.solid name t'' found'').ground
    (properNext.solid name t' found').ground (proper.solid name t found).ground below' below⟩

/-- Binding a variable to a type below its bound keeps the bindings proper. -/
theorem Proper.insert (proper : Proper h clause bindings) (solid : t.Solid h)
    (below : ∀ v ∈ clause, v.name = name → isSubtype h t v.bound = true) :
    Proper h clause (bindings.insert name t) where
  solid := by
    intro other u found
    rw [Assoc.find?_insert] at found
    split at found
    · cases found
      exact solid
    · exact proper.solid other u found
  below := by
    intro v hv u found
    rw [Assoc.find?_insert] at found
    split at found
    case isTrue same =>
        cases found
        exact below v hv same.symm
    case isFalse => exact proper.below v hv u found

/-- An assignment below some bindings stays below when a variable is bound above it. -/
theorem Refines.insert (refines : Refines h assigned bindings) {u : Ty}
    (found : assigned.find? name = some u) (below : isSubtype h u t = true) :
    Refines h assigned (bindings.insert name t) := by
  intro other v found'
  rw [Assoc.find?_insert] at found'
  split at found'
  case isTrue same =>
      cases found'
      exact ⟨u, same ▸ found, below⟩
  case isFalse => exact refines other v found'

/-! ## Fitting -/

mutual

/-- Whether an argument has something in common with a parameter under an assignment of the
    variables: what a variable is assigned lies below the arguments that it stands for. -/
def Fits (h : Hierarchy) (assigned : Assoc Ty) (param arg : Ty) : Prop :=
  if !param.hasVars then Common h arg param
  else
    match param with
    | .typeVar name _ => ∃ t, assigned.find? name = some t ∧ isSubtype h t arg = true
    | .concrete name params =>
        match arg with
        | .concrete other args =>
            if other == name && args.length == params.length then
              FitsAll h assigned params args
            else Common h arg (Ty.erase (.concrete name params))
        | arg => Common h arg (Ty.erase (.concrete name params))
    | param => Common h arg param.erase

/-- Whether arguments do, position by position. -/
def FitsAll (h : Hierarchy) (assigned : Assoc Ty) (params args : List Ty) : Prop :=
  match params, args with
  | param :: params, arg :: args => Fits h assigned param arg ∧ FitsAll h assigned params args
  | _, _ => True

end

theorem fits_typeVar :
    Fits h assigned (.typeVar name bound) arg ↔
      ∃ t, assigned.find? name = some t ∧ isSubtype h t arg = true := by
  rw [Fits]
  simp [Ty.hasVars]

theorem matchParam_typeVar :
    matchParam h (.typeVar name bound) arg bindings = matchVar h name bound arg bindings := by
  rw [matchParam.eq_def]
  simp [Ty.hasVars]

theorem fits_inside (vars : Ty.anyHasVars ps = true) (length : qs.length = ps.length) :
    Fits h assigned (.concrete name ps) (.concrete name qs) ↔ FitsAll h assigned ps qs := by
  rw [Fits.eq_def]
  simp [Ty.hasVars, vars, length]

theorem matchParam_inside (vars : Ty.anyHasVars ps = true) (length : qs.length = ps.length) :
    matchParam h (.concrete name ps) (.concrete name qs) bindings =
      matchArgs h ps qs bindings := by
  rw [matchParam.eq_def]
  simp [Ty.hasVars, vars, length]

/-- How a parameter is compared with an argument: as a variable, argument by argument, or as a
    whole. -/
inductive Compared (h : Hierarchy) : Ty → Ty → Prop where
  | named (name : String) (bound arg : Ty) : Compared h (.typeVar name bound) arg
  | inside {name : String} {ps qs : List Ty} (length : qs.length = ps.length)
      (vars : Ty.anyHasVars ps = true) : Compared h (.concrete name ps) (.concrete name qs)
  | whole {param arg : Ty}
      (matched : ∀ bindings, matchParam h param arg bindings =
        (applicabilityOf h param.outline arg, bindings))
      (fits : ∀ assigned, Fits h assigned param arg ↔ Common h arg param.outline) :
      Compared h param arg

theorem compared_concrete_whole (vars : Ty.anyHasVars ps = true)
    (other : ∀ qs, arg = .concrete name qs → qs.length ≠ ps.length) :
    Compared h (.concrete name ps) arg := by
  have hasVars : (Ty.concrete name ps).hasVars = true := vars
  refine .whole (fun bindings => ?_) (fun assigned => ?_)
  · rw [matchParam.eq_def]
    simp only [hasVars, Ty.outline]
    cases arg <;> simp_all
  · rw [Fits.eq_def]
    simp only [hasVars, Ty.outline]
    cases arg <;> simp_all

/-- Every parameter is compared with every argument in one of the three ways. -/
theorem compared (h : Hierarchy) (param arg : Ty) : Compared h param arg := by
  cases vars : param.hasVars with
  | false =>
      have alone : param.outline = param := by simp [Ty.outline, vars]
      refine .whole (fun bindings => ?_) (fun assigned => ?_)
      · rw [matchParam.eq_def, alone]
        simp [vars]
      · rw [Fits.eq_def, alone]
        simp [vars]
  | true =>
      cases param with
      | typeVar name bound => exact .named name bound arg
      | concrete name ps =>
          have mentions : Ty.anyHasVars ps = true := vars
          cases arg with
          | concrete other qs =>
              by_cases inside : other = name ∧ qs.length = ps.length
              · obtain ⟨rfl, length⟩ := inside
                exact .inside length mentions
              · refine compared_concrete_whole mentions ?_
                rintro _ ⟨⟩ length
                exact inside ⟨rfl, length⟩
          | _ => exact compared_concrete_whole mentions (by simp)
      | union ms =>
          refine .whole (fun bindings => ?_) (fun assigned => ?_)
          · rw [matchParam.eq_def]
            simp [vars, Ty.outline]
          · rw [Fits.eq_def]
            simp [vars, Ty.outline]
      | _ => cases vars

/-! ## Applicability -/

theorem both_ne_none {x y : Applicability} : x.both y ≠ .none ↔ x ≠ .none ∧ y ≠ .none := by
  cases x <;> cases y <;> simp [Applicability.both]

theorem matchArgs_cons (h : Hierarchy) (param arg : Ty) (params args : List Ty)
    (bindings : Assoc Ty) :
    matchArgs h (param :: params) (arg :: args) bindings =
      ((matchParam h param arg bindings).1.both
          (matchArgs h params args (matchParam h param arg bindings).2).1,
        (matchArgs h params args (matchParam h param arg bindings).2).2) := by
  rw [matchArgs.eq_def]

/-- A type applies to an argument that has something in common with it. -/
theorem applicabilityOf_ne_none_iff (ordered : Hierarchy.Ordered h.decls)
    (uniform : h.UniformVariance) (hp : param.Solid h) (ha : arg.Solid h) :
    applicabilityOf h param arg ≠ .none ↔ Common h arg param := by
  unfold applicabilityOf overlaps
  by_cases below : isSubtype h arg param = true
  · rw [if_pos below]
    exact ⟨fun _ => ⟨arg, ha, isSubtype_refl h arg, below⟩, fun _ => by simp⟩
  · rw [if_neg below, ← meet_ne_bottom_iff ordered uniform ha hp]
    cases meet h arg param <;> simp [Ty.isBottom]

/-! ## The bindings that matching ends with -/

section Bindings

variable (ordered : Hierarchy.Ordered h.decls) (uniform : h.UniformVariance)
  (declared : Clause h clause)

include ordered declared in
/-- Matching a variable binds it to a type below the argument and narrows what it was bound to. -/
theorem matchVar_sound (member : ⟨name, bound⟩ ∈ clause) (ha : arg.Solid h)
    (proper : Proper h clause bindings)
    (matched : (matchVar h name bound arg bindings).1 ≠ .none) :
    Proper h clause (matchVar h name bound arg bindings).2 ∧
      Refines h (matchVar h name bound arg bindings).2 bindings ∧
      ∃ t, (matchVar h name bound arg bindings).2.find? name = some t ∧
        isSubtype h t arg = true := by
  -- a variable that gets a type below what it is bound to refines the bindings
  have rebound : ∀ t, (∀ held, bindings.find? name = some held → isSubtype h t held = true) →
      Refines h (bindings.insert name t) bindings := by
    intro t below other held found
    rw [Assoc.find?_insert]
    split
    case isTrue same => exact ⟨t, rfl, below held (same ▸ found)⟩
    case isFalse => exact ⟨held, found, isSubtype_refl h held⟩
  unfold matchVar at matched ⊢
  cases found : bindings.find? name with
  | none =>
      simp only [found] at matched ⊢
      have hb := declared.bounds _ member
      rcases solid_meet ordered ha hb with empty | solid
      · simp [empty, Ty.isBottom] at matched
      · obtain ⟨-, left, right⟩ := meet_lowerBound ordered ha.ground hb.ground
        have notBottom : (meet h arg bound).isBottom = false := by
          have free := solid.bottomFree
          cases value : meet h arg bound <;> simp_all [Ty.isBottom, Ty.bottomFree]
        simp only [notBottom, Bool.false_eq_true, if_false]
        refine ⟨proper.insert solid fun v hv same => ?_, rebound _ (by simp [found]), _, ?_, left⟩
        · rw [declared.eq_of_name hv member same]
          exact right
        · rw [Assoc.find?_insert, if_pos rfl]
  | some held =>
      simp only [found] at matched ⊢
      have hheld := proper.solid name held found
      by_cases same : equivalent h held arg = true
      · simp only [same, if_true]
        simp only [equivalent, Bool.and_eq_true] at same
        exact ⟨proper, Refines.refl h bindings, held, found, same.1⟩
      · simp only [same, Bool.false_eq_true, if_false] at matched ⊢
        rcases solid_meet ordered hheld ha with empty | solid
        · simp [empty, Ty.isBottom] at matched
        · obtain ⟨ground, left, right⟩ := meet_lowerBound ordered hheld.ground ha.ground
          have notBottom : (meet h held arg).isBottom = false := by
            have free := solid.bottomFree
            cases value : meet h held arg <;> simp_all [Ty.isBottom, Ty.bottomFree]
          simp only [notBottom, Bool.false_eq_true, if_false]
          refine ⟨proper.insert solid fun v hv same => ?_, rebound _ ?_, _, ?_, right⟩
          · exact isSubtype_trans ordered ground hheld.ground (declared.bounds v hv).ground left
              (proper.below v hv held (same ▸ found))
          · intro held' found'
            rw [found] at found'
            cases found'
            exact left
          · rw [Assoc.find?_insert, if_pos rfl]

/-- What matching a parameter establishes: the bindings are narrowed, and every assignment below
    the new ones fits the argument. -/
def Sound (h : Hierarchy) (clause : List TypeVar) (param : Ty) : Prop :=
  ∀ arg bindings, arg.Solid h → Proper h clause bindings →
    (matchParam h param arg bindings).1 ≠ .none →
    Proper h clause (matchParam h param arg bindings).2 ∧
      Refines h (matchParam h param arg bindings).2 bindings ∧
      ∀ assigned, Proper h clause assigned →
        Refines h assigned (matchParam h param arg bindings).2 → Fits h assigned param arg

include ordered in
theorem matchArgs_sound (sound : ∀ param ∈ params, Sound h clause param)
    (solid : ∀ arg ∈ args, arg.Solid h) (proper : Proper h clause bindings)
    (matched : (matchArgs h params args bindings).1 ≠ .none) :
    Proper h clause (matchArgs h params args bindings).2 ∧
      Refines h (matchArgs h params args bindings).2 bindings ∧
      ∀ assigned, Proper h clause assigned →
        Refines h assigned (matchArgs h params args bindings).2 →
        FitsAll h assigned params args := by
  induction params generalizing args bindings with
  | nil =>
      rw [matchArgs.eq_def]
      exact ⟨proper, Refines.refl h bindings, fun _ _ _ => by simp [FitsAll]⟩
  | cons param params ih =>
      cases args with
      | nil =>
          rw [matchArgs.eq_def]
          exact ⟨proper, Refines.refl h bindings, fun _ _ _ => by simp [FitsAll]⟩
      | cons arg args =>
          rw [List.forall_mem_cons] at sound solid
          rw [matchArgs_cons] at matched ⊢
          obtain ⟨first, rest⟩ := both_ne_none.1 matched
          obtain ⟨proper', refines, fits⟩ := sound.1 arg bindings solid.1 proper first
          obtain ⟨proper'', refines', fits'⟩ := ih sound.2 solid.2 proper' rest
          refine ⟨proper'', refines'.trans ordered proper'' proper' proper refines, ?_⟩
          intro assigned properAssigned below
          rw [FitsAll]
          exact ⟨fits assigned properAssigned
            (below.trans ordered properAssigned proper'' proper' refines'),
            fits' assigned properAssigned below⟩

include ordered uniform declared in
theorem matchParam_sound (param : Ty) (inScope : param.Scoped h clause)
    (free : param.bottomFree = true) : Sound h clause param := by
  induction total : param.size using Nat.strongRecOn generalizing param with
  | ind n ih =>
      intro arg bindings ha proper matched
      cases compared h param arg with
      | named name bound =>
          rw [matchParam_typeVar] at matched ⊢
          obtain ⟨proper', refines, t, found, below⟩ :=
            matchVar_sound ordered declared inScope ha proper matched
          refine ⟨proper', refines, fun assigned properAssigned lower => fits_typeVar.2 ?_⟩
          obtain ⟨t', found', below'⟩ := lower name t found
          exact ⟨t', found', isSubtype_trans ordered (properAssigned.solid name t' found').ground
            (proper'.solid name t found).ground ha.ground below' below⟩
      | @inside name ps qs length vars =>
          rw [matchParam_inside vars length] at matched ⊢
          have parts : ∀ p ∈ ps, Sound h clause p := by
            intro p hp
            have := Ty.size_lt_sizes hp
            rw [Ty.bottomFree, Ty.allBottomFree_iff] at free
            exact ih p.size (by simp only [Ty.size] at total; omega) p
              (Ty.allScoped_iff.1 inScope.2.2 p hp) (free p hp) rfl
          obtain ⟨proper', refines, fitsAll⟩ :=
            matchArgs_sound ordered parts (fun q hq => ha.arg hq) proper matched
          exact ⟨proper', refines, fun assigned properAssigned lower =>
            (fits_inside vars length).2 (fitsAll assigned properAssigned lower)⟩
      | whole matchedWhole fits =>
          rw [matchedWhole] at matched ⊢
          have outline := Ty.solid_outline declared.bounds inScope free
          have common := (applicabilityOf_ne_none_iff ordered uniform outline ha).1 matched
          exact ⟨proper, Refines.refl h bindings, fun assigned _ _ => (fits assigned).2 common⟩

/-! ## Assignments make matching succeed -/

include ordered uniform declared in
/-- A variable can be bound wherever an assignment below the bindings lies below the argument. -/
theorem matchVar_complete (member : ⟨name, bound⟩ ∈ clause) (ha : arg.Solid h)
    (proper : Proper h clause bindings) (properAssigned : Proper h clause assigned)
    (lower : Refines h assigned bindings) (found : assigned.find? name = some t)
    (below : isSubtype h t arg = true) :
    (matchVar h name bound arg bindings).1 ≠ .none ∧
      Refines h assigned (matchVar h name bound arg bindings).2 := by
  have solid := properAssigned.solid name t found
  -- the meet of the argument with a type above `t` is above `t`, hence not empty
  have kept : ∀ x y : Ty, x.Solid h → y.Solid h → isSubtype h t x = true →
      isSubtype h t y = true →
        isSubtype h t (meet h x y) = true ∧ (meet h x y).isBottom = false := by
    intro x y hx hy tx ty
    have overlap := (meet_ne_bottom_iff ordered uniform hx hy).2 ⟨t, solid, tx, ty⟩
    refine ⟨isSubtype_meet ordered uniform hx.ground hy.ground solid.ground solid.bottomFree tx ty,
      ?_⟩
    cases value : meet h x y <;> simp_all [Ty.isBottom]
  unfold matchVar
  cases held : bindings.find? name with
  | none =>
      obtain ⟨above, notBottom⟩ := kept arg bound ha (declared.bounds _ member) below
        (properAssigned.below _ member t found)
      simp only [notBottom, Bool.false_eq_true, if_false]
      refine ⟨?_, lower.insert found above⟩
      split <;> simp
  | some u =>
      dsimp only
      by_cases same : equivalent h u arg = true
      · rw [if_pos same]
        exact ⟨by simp, lower⟩
      · rw [if_neg same]
        obtain ⟨t', found', tu⟩ := lower name u held
        rw [found] at found'
        cases found'
        obtain ⟨above, notBottom⟩ := kept u arg (proper.solid name u held) ha tu below
        simp only [notBottom, Bool.false_eq_true, if_false]
        exact ⟨by simp, lower.insert found above⟩

/-- What fits a parameter under an assignment matches it, and the bindings stay above the
    assignment. -/
def Complete (h : Hierarchy) (clause : List TypeVar) (param : Ty) : Prop :=
  ∀ arg bindings assigned, arg.Solid h → Proper h clause bindings → Proper h clause assigned →
    Refines h assigned bindings → Fits h assigned param arg →
    (matchParam h param arg bindings).1 ≠ .none ∧
      Refines h assigned (matchParam h param arg bindings).2

theorem matchArgs_complete (sound : ∀ param ∈ params, Sound h clause param)
    (complete : ∀ param ∈ params, Complete h clause param) (solid : ∀ arg ∈ args, arg.Solid h)
    (proper : Proper h clause bindings) (properAssigned : Proper h clause assigned)
    (lower : Refines h assigned bindings) (fits : FitsAll h assigned params args) :
    (matchArgs h params args bindings).1 ≠ .none ∧
      Refines h assigned (matchArgs h params args bindings).2 := by
  induction params generalizing args bindings with
  | nil =>
      rw [matchArgs.eq_def]
      exact ⟨by simp, lower⟩
  | cons param params ih =>
      cases args with
      | nil =>
          rw [matchArgs.eq_def]
          exact ⟨by simp, lower⟩
      | cons arg args =>
          rw [List.forall_mem_cons] at sound complete solid
          rw [FitsAll] at fits
          rw [matchArgs_cons]
          obtain ⟨first, lower'⟩ :=
            complete.1 arg bindings assigned solid.1 proper properAssigned lower fits.1
          have proper' := (sound.1 arg bindings solid.1 proper first).1
          obtain ⟨rest, lower''⟩ := ih sound.2 complete.2 solid.2 proper' lower' fits.2
          exact ⟨both_ne_none.2 ⟨first, rest⟩, lower''⟩

include ordered uniform declared in
theorem matchParam_complete (param : Ty) (inScope : param.Scoped h clause)
    (free : param.bottomFree = true) : Complete h clause param := by
  induction total : param.size using Nat.strongRecOn generalizing param with
  | ind n ih =>
      intro arg bindings assigned ha proper properAssigned lower holds
      cases compared h param arg with
      | named name bound =>
          obtain ⟨t, found, below⟩ := fits_typeVar.1 holds
          rw [matchParam_typeVar]
          exact matchVar_complete ordered uniform declared inScope ha proper properAssigned lower
            found below
      | @inside name ps qs length vars =>
          have parts : ∀ p ∈ ps, p.Scoped h clause ∧ p.bottomFree = true := by
            rw [Ty.bottomFree, Ty.allBottomFree_iff] at free
            exact fun p hp => ⟨Ty.allScoped_iff.1 inScope.2.2 p hp, free p hp⟩
          rw [matchParam_inside vars length]
          refine matchArgs_complete
            (fun p hp => matchParam_sound ordered uniform declared p (parts p hp).1 (parts p hp).2)
            (fun p hp => ?_) (fun q hq => ha.arg hq) proper properAssigned lower
            ((fits_inside vars length).1 holds)
          have := Ty.size_lt_sizes hp
          exact ih p.size (by simp only [Ty.size] at total; omega) p (parts p hp).1 (parts p hp).2
            rfl
      | whole matched fits =>
          rw [matched]
          have outline := Ty.solid_outline declared.bounds inScope free
          refine ⟨(applicabilityOf_ne_none_iff ordered uniform outline ha).2 ?_, lower⟩
          exact (fits assigned).1 holds

/-! ## Broader arguments -/

/-- What lies below an instance with arguments, and is no union, is an instance with arguments
    below. -/
theorem concrete_of_isSubtype {a : Ty} (ha : a.Solid h) (single : a.unionFree = true)
    (hb : (Ty.concrete name qs).ground h = true) (several : qs ≠ [])
    (below : isSubtype h a (.concrete name qs) = true) :
    ∃ rs, a = .concrete name rs ∧ List.Forall₂ (fun r q => isSubtype h r q = true) rs qs := by
  rcases a.atom_cases with rfl | rfl | ⟨ms, rfl⟩ | atom
  · cases (any_isSubtype_iff hb).1 below
  · cases ha.bottomFree
  · cases single
  · obtain ⟨rs, rfl, args⟩ := atom_isSubtype_concrete ha.ground atom hb below
    obtain ⟨length, pairs⟩ := argsBelow_iff.1 (args.resolve_left several)
    exact ⟨rs, rfl, List.forall₂_iff_get.2 ⟨length, fun i hr hq => (pairs i hr hq).1⟩⟩

theorem fitsAll_mono {as bs : List Ty}
    (mono : ∀ p ∈ params, ∀ a ∈ as, ∀ b ∈ bs, isSubtype h a b = true →
      Fits h assigned p a → Fits h assigned p b)
    (below : List.Forall₂ (fun a b => isSubtype h a b = true) as bs)
    (fits : FitsAll h assigned params as) : FitsAll h assigned params bs := by
  induction below generalizing params with
  | nil => exact fits
  | @cons a b as bs first rest ih =>
      cases params with
      | nil => simp [FitsAll]
      | cons p params =>
          rw [FitsAll] at fits ⊢
          refine ⟨mono p (by simp) a (by simp) b (by simp) first fits.1, ih ?_ fits.2⟩
          exact fun p hp a ha b hb =>
            mono p (List.mem_cons_of_mem _ hp) a (List.mem_cons_of_mem _ ha) b
              (List.mem_cons_of_mem _ hb)

include ordered in
/-- What fits a type without unions fits every type above it. -/
theorem fits_mono (properAssigned : Proper h clause assigned) (param : Ty) {a b : Ty}
    (inScope : param.Scoped h clause) (ha : a.Solid h) (hb : b.Solid h)
    (single : a.unionFree = true) (below : isSubtype h a b = true)
    (fits : Fits h assigned param a) : Fits h assigned param b := by
  induction total : param.size using Nat.strongRecOn generalizing param a b with
  | ind n ih =>
      have upward : ∀ t : Ty, t.Solid h → isSubtype h t a = true → isSubtype h t b = true :=
        fun t solid ta => isSubtype_trans ordered solid.ground ha.ground hb.ground ta below
      cases compared h param b with
      | named name bound =>
          obtain ⟨t, found, ta⟩ := fits_typeVar.1 fits
          exact fits_typeVar.2 ⟨t, found, upward t (properAssigned.solid name t found) ta⟩
      | @inside name ps qs length vars =>
          have several : qs ≠ [] := by
            rintro rfl
            rw [List.length_eq_zero_iff.1 length.symm] at vars
            cases vars
          obtain ⟨rs, rfl, args⟩ := concrete_of_isSubtype ha single hb.ground several below
          rw [fits_inside vars (args.length_eq.trans length)] at fits
          rw [fits_inside vars length]
          refine fitsAll_mono (fun p hp r hr q hq rq fits => ?_) args fits
          have := Ty.size_lt_sizes hp
          rw [Ty.unionFree, Ty.allUnionFree_iff] at single
          exact ih p.size (by simp only [Ty.size] at total; omega) p
            (Ty.allScoped_iff.1 inScope.2.2 p hp) (ha.arg hr) (hb.arg hq) (single r hr) rq fits rfl
      | whole matched whole =>
          cases compared h param a with
          | named name bound =>
              obtain ⟨t, found, ta⟩ := fits_typeVar.1 fits
              exact fits_typeVar.2 ⟨t, found, upward t (properAssigned.solid name t found) ta⟩
          | @inside name ps qs length vars =>
              -- the argument itself is below the bare type
              rw [whole, Ty.outline_concrete vars]
              obtain ⟨declared, -, -⟩ := inScope
              have bare : (Ty.concrete name []).ground h = true :=
                Ty.ground_concrete.2 ⟨declared, Or.inl rfl, by simp⟩
              exact ⟨_, ha, below,
                (concrete_isSubtype_concrete_iff ha.ground bare).2 ⟨rfl, Or.inl rfl⟩⟩
          | whole matched' whole' =>
              obtain ⟨t, solid, ta, tp⟩ := (whole' assigned).1 fits
              exact (whole assigned).2 ⟨t, solid, upward t solid ta, tp⟩

end Bindings

/-! ## Methods -/

section Methods

variable {m : Method} {a b : List Ty}

theorem matchMethod_isSome_iff_matchArgs :
    (matchMethod h m a).isSome = true ↔ m.params.length = a.length ∧
      (matchArgs h (m.params.map (·.type)) a []).1 ≠ .none := by
  unfold matchMethod
  by_cases length : m.params.length = a.length
  · rw [if_neg (not_not.2 length)]
    cases matchArgs h (m.params.map (·.type)) a [] with
    | mk applicability bindings => cases applicability <;> simp [length]
  · rw [if_pos length]
    simp [length]

/-- A method matches arguments exactly if they are as many as its parameters, and its variables
    can be assigned types under which every argument has something in common with its
    parameter. -/
theorem matchMethod_isSome_iff (ordered : Hierarchy.Ordered h.decls) (uniform : h.UniformVariance)
    (wellFormed : m.WellFormed h) (solid : ∀ t ∈ a, t.Solid h) :
    (matchMethod h m a).isSome = true ↔ m.params.length = a.length ∧
      ∃ assigned, Proper h m.typeParams assigned ∧
        FitsAll h assigned (m.params.map (·.type)) a := by
  have sound : ∀ p ∈ m.params.map (·.type), Sound h m.typeParams p :=
    List.forall_mem_map.2 fun p hp => matchParam_sound ordered uniform wellFormed.clause p.type
      (wellFormed.inScope p hp) (wellFormed.bottomFree p hp)
  have complete : ∀ p ∈ m.params.map (·.type), Complete h m.typeParams p :=
    List.forall_mem_map.2 fun p hp => matchParam_complete ordered uniform wellFormed.clause p.type
      (wellFormed.inScope p hp) (wellFormed.bottomFree p hp)
  have nothing := proper_nil h m.typeParams
  rw [matchMethod_isSome_iff_matchArgs, and_congr_right_iff]
  intro _
  constructor
  · intro matched
    obtain ⟨proper, -, fits⟩ := matchArgs_sound ordered sound solid nothing matched
    exact ⟨_, proper, fits _ proper (Refines.refl h _)⟩
  · rintro ⟨assigned, proper, fits⟩
    exact (matchArgs_complete sound complete solid nothing proper (refines_nil h assigned) fits).1

/-- A method that matches arguments without unions matches all broader arguments. -/
theorem matchMethod_of_broader (ordered : Hierarchy.Ordered h.decls) (uniform : h.UniformVariance)
    (wellFormed : m.WellFormed h) (solidA : ∀ t ∈ a, t.Solid h)
    (single : ∀ t ∈ a, t.unionFree = true) (solidB : ∀ t ∈ b, t.Solid h)
    (below : List.Forall₂ (fun x y => isSubtype h x y = true) a b)
    (matched : (matchMethod h m a).isSome = true) : (matchMethod h m b).isSome = true := by
  rw [matchMethod_isSome_iff ordered uniform wellFormed solidA] at matched
  rw [matchMethod_isSome_iff ordered uniform wellFormed solidB]
  obtain ⟨length, assigned, proper, fits⟩ := matched
  refine ⟨length.trans below.length_eq, assigned, proper, fitsAll_mono ?_ below fits⟩
  intro p hp x hx y hy xy fits
  obtain ⟨param, member, rfl⟩ := List.mem_map.1 hp
  exact fits_mono ordered proper param.type (wellFormed.inScope param member) (solidA x hx)
    (solidB y hy) (single x hx) xy fits

end Methods

end Multimethod.Dispatch
