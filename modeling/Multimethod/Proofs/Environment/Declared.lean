import Multimethod.Proofs.Environment.Narrowing
import Multimethod.Proofs.Environment.Order

/-!
# Declared types

What becomes of the type with which a name was declared: narrowing, widening and setting to the
top leave it as it is, and where paths meet it comes from one of them. The type that the name holds
stays below it where a condition is tested. Where paths meet it stays below a type that bounds it on
all of them, but widening and setting to the top may raise it further.
-/

namespace Multimethod.Environment

open Multimethod.Lattice

variable {h : Hierarchy} {base env a b c : Environment} {name other : String} {bound : Ty}

/-- The type with which a name of the innermost scope was declared, if any. -/
def declaredHere? (env : Environment) (name : String) : Option Ty :=
  (env.bindings.find? name).bind (·.declared)

/-- Whether what a name of the innermost scope holds, if anything, is below a type. -/
def Within (h : Hierarchy) (name : String) (bound : Ty) (env : Environment) : Prop :=
  ∀ t ∈ env.typeHere? name, isSubtype h t bound = true

/-- Whether a name of the innermost scope holds what it was declared with, if it was declared. -/
def Typed (h : Hierarchy) (name : String) (env : Environment) : Prop :=
  ∀ declared ∈ env.declaredHere? name, env.Within h name declared

/-- Whether two environments are the same scope, with the same names declared. -/
structure SameScope (a b : Environment) : Prop where
  kind : b.kind = a.kind
  parent : b.parent = a.parent
  declared : ∀ name, b.declaredHere? name = a.declaredHere? name

theorem SameScope.refl (env : Environment) : SameScope env env :=
  ⟨rfl, rfl, fun _ => rfl⟩

theorem SameScope.trans (first : SameScope a b) (second : SameScope b c) : SameScope a c where
  kind := second.kind.trans first.kind
  parent := second.parent.trans first.parent
  declared name := (second.declared name).trans (first.declared name)

theorem sameScope_foldl {σ α : Type} (envOf : σ → Environment) {step : σ → α → σ}
    (keeps : ∀ state x, SameScope (envOf state) (envOf (step state x))) (xs : List α) (state : σ) :
    SameScope (envOf state) (envOf (xs.foldl step state)) := by
  induction xs generalizing state with
  | nil => exact .refl _
  | cons x rest ih => exact (keeps state x).trans (ih _)

/-- Whether no name that is seen from an environment is declared. -/
structure Undeclared (env : Environment) : Prop where
  here : ∀ name, env.declaredHere? name = none
  outer : ∀ scope ∈ env.parent, ∀ name x, scope.lookup name = some x → x.declared = none

theorem Undeclared.of_sameScope (undeclared : a.Undeclared) (same : SameScope a b) :
    b.Undeclared where
  here name := (same.declared name).trans (undeclared.here name)
  outer scope inside := undeclared.outer scope (same.parent ▸ inside)

theorem Undeclared.eq_none (undeclared : env.Undeclared) {x : Binding}
    (seen : env.lookup name = some x) : x.declared = none := by
  rw [lookup_eq, Option.or_eq_some_iff] at seen
  rcases seen with found | ⟨-, further⟩
  · have here := undeclared.here name
    rwa [declaredHere?, found] at here
  · obtain ⟨scope, inside, seen⟩ := Option.bind_eq_some_iff.1 further
    exact undeclared.outer scope inside name x seen

theorem undeclared_create {outer : Option Environment}
    (undeclared : ∀ scope ∈ outer, scope.Undeclared) (kind : ScopeKind) :
    (create outer kind).Undeclared where
  here _ := rfl
  outer scope inside _ _ seen := (undeclared scope inside).eq_none seen

/-! ## Setting a name -/

theorem declaredHere?_update (env : Environment) (name other : String) (type : Ty)
    (kind : BindingKind) (declared : Option Ty) :
    (env.update name type kind declared).declaredHere? other =
      if name = other then (env.declaredHere? name).or declared else env.declaredHere? other := by
  unfold declaredHere? update
  rw [Assoc.find?_insert]
  split <;> rfl

theorem sameScope_update (env : Environment) (name : String) (type : Ty) (kind : BindingKind) :
    SameScope env (env.update name type kind none) where
  kind := rfl
  parent := rfl
  declared other := by
    rw [declaredHere?_update]
    split
    · rename_i same
      rw [Option.or_none, same]
    · rfl

/-- A name that is set holds its declared type if the new type is below it. -/
theorem Typed.update (typed : env.Typed h name) {type : Ty} {declared : Option Ty}
    (below : other = name → ∀ d ∈ (env.declaredHere? name).or declared, isSubtype h type d = true)
    (kind : BindingKind) : (env.update other type kind declared).Typed h name := by
  intro d member t held
  rw [declaredHere?_update] at member
  rw [typeHere?_update] at held
  by_cases same : other = name
  · subst same
    rw [if_pos rfl] at member held
    cases held
    exact below rfl d member
  · rw [if_neg same] at member held
    exact typed d member t held

/-! ## Merging -/

theorem declaredHere?_addedBinding {x y : Binding} :
    (addedBinding h (some x) (some x) y).bind (·.declared) = x.declared ∨
      (addedBinding h (some x) (some x) y).bind (·.declared) = x.declared.or y.declared := by
  unfold addedBinding
  dsimp only
  split
  · exact .inl rfl
  · exact .inr rfl

/-- A merge takes the declared type of a name from one of the two paths. -/
theorem declaredHere?_merge (h : Hierarchy) (a : Environment) (distinct : b.bindings.Distinct)
    (name : String) :
    (merge h a b).declaredHere? name = a.declaredHere? name ∨
      (merge h a b).declaredHere? name = (a.declaredHere? name).or (b.declaredHere? name) := by
  unfold declaredHere?
  rw [find?_merge h a distinct]
  cases b.bindings.find? name with
  | none => exact .inl rfl
  | some y =>
      cases a.bindings.find? name with
      | none => exact .inr rfl
      | some x => exact declaredHere?_addedBinding

theorem SameScope.merge (first : SameScope base a) (second : SameScope base b)
    (distinct : b.bindings.Distinct) : SameScope base (merge h a b) where
  kind := first.kind
  parent := first.parent
  declared name := by
    rcases declaredHere?_merge h a distinct name with same | same
    · rw [same, first.declared]
    · rw [same, first.declared, second.declared, Option.or_self]

/-- What bounds a name on two paths bounds it where they meet. -/
theorem Within.merge (ordered : Hierarchy.Ordered h.decls) (groundA : a.GroundHere h)
    (groundB : b.GroundHere h) (ground : bound.ground h = true) (first : a.Within h name bound)
    (second : b.Within h name bound) : (merge h a b).Within h name bound := by
  intro t held
  unfold typeHere? at held
  rw [find?_merge h a groundB.distinct] at held
  cases there : b.bindings.find? name with
  | none =>
      rw [there] at held
      exact first t held
  | some y =>
      rw [there] at held
      have below := second y.type (typeHere?_eq_some.2 ⟨y, there, rfl⟩)
      cases here : a.bindings.find? name with
      | none =>
          rw [here] at held
          cases held
          exact below
      | some x =>
          rw [here] at held
          have heldA : a.typeHere? name = some x.type := typeHere?_eq_some.2 ⟨x, here, rfl⟩
          have heldB : b.typeHere? name = some y.type := typeHere?_eq_some.2 ⟨y, there, rfl⟩
          simp only [addedBinding] at held
          split at held
          · cases held
            exact first _ heldA
          · cases held
            exact join_isSubtype ordered (groundA.ground _ _ heldA) (groundB.ground _ _ heldB)
              ground (first _ heldA) below

/-- Whether a name is declared, if at all, with one of some types, and what it holds is below all of
    them. -/
structure Meets (h : Hierarchy) (name : String) (types : Ty → Prop) (env : Environment) : Prop where
  declared : ∀ d ∈ env.declaredHere? name, types d
  within : ∀ d, types d → env.Within h name d

theorem Meets.typed {types : Ty → Prop} (meets : env.Meets h name types) : env.Typed h name :=
  fun d member => meets.within d (meets.declared d member)

theorem Meets.merge (ordered : Hierarchy.Ordered h.decls) (groundA : a.GroundHere h)
    (groundB : b.GroundHere h) {types : Ty → Prop} (ground : ∀ d, types d → d.ground h = true)
    (first : a.Meets h name types) (second : b.Meets h name types) :
    (Environment.merge h a b).Meets h name types where
  declared d member := by
    rcases declaredHere?_merge h a groundB.distinct name with same | same
    · exact first.declared d (same ▸ member)
    · rw [same, Option.mem_def, Option.or_eq_some_iff] at member
      exact member.elim (first.declared d) fun member => second.declared d member.2
  within d among :=
    .merge ordered groundA groundB (ground d among) (first.within d among) (second.within d among)

/-! ## Conditions -/

/-- Whether an environment is the same scope as another one, and a name holds its declared type. -/
structure Refined (h : Hierarchy) (name : String) (base env : Environment) : Prop
    extends SameScope base env where
  typed : env.Typed h name

theorem Refined.meets (refined : Refined h name base env) :
    env.Meets h name (· ∈ base.declaredHere? name) where
  declared d member := by rwa [← refined.declared]
  within d member := refined.typed d (by rwa [refined.declared])

theorem Refined.merge (ordered : Hierarchy.Ordered h.decls) (groundA : a.GroundHere h)
    (groundB : b.GroundHere h) (ground : ∀ d ∈ base.declaredHere? name, d.ground h = true)
    (first : Refined h name base a) (second : Refined h name base b) :
    Refined h name base (Environment.merge h a b) where
  toSameScope := first.toSameScope.merge second.toSameScope groundB.distinct
  typed := (first.meets.merge ordered groundA groundB ground second.meets).typed

/-- A test sets a name to a type below the one that it holds. -/
theorem Refined.narrowName (ordered : Hierarchy.Ordered h.decls)
    (groundBase : ∀ d ∈ base.declaredHere? name, d.ground h = true)
    (ground : ∀ name x, env.lookup name = some x → x.type.ground h = true) {test : Ty}
    (groundTest : test.ground h = true) (refined : Refined h name base env) (subject : String)
    (truthy : Bool) :
    ∀ env' ∈ Environment.narrowName h env subject test truthy, Refined h name base env' := by
  intro env' reached
  rw [narrowName_eq] at reached
  cases seen : env.lookup subject with
  | none =>
      rw [seen] at reached
      cases reached
      exact refined
  | some x =>
      have groundX := ground subject x seen
      obtain ⟨groundLeft, below⟩ := narrowedType_isSubtype ordered groundX groundTest truthy
      simp only [seen] at reached
      split at reached
      · cases reached
        exact refined
      · split at reached
        · cases reached
        · cases reached
          refine ⟨refined.toSameScope.trans (sameScope_update _ _ _ _), ?_⟩
          refine refined.typed.update (fun same d member => ?_) _
          -- a declared name is bound here, so it is its own type that was narrowed
          rw [Option.or_none] at member
          obtain ⟨y, found, -⟩ := Option.bind_eq_some_iff.1 member
          rw [same, lookup_of_find? found] at seen
          cases seen
          have held := refined.typed d member x.type (typeHere?_eq_some.2 ⟨x, found, rfl⟩)
          have groundD := groundBase d (by rwa [← refined.declared])
          exact isSubtype_trans ordered groundLeft groundX groundD below held

/-! ## The head of a loop -/

theorem Raised.sameScope {entry : String × Binding} (raised : Raised h entry a b) :
    SameScope a b := by
  cases raised with
  | same => exact .refl _
  | up _ => exact sameScope_update _ _ _ _

theorem sameScope_widenAll (h : Hierarchy) (env : Environment) (histories : Histories)
    (threshold : Nat) : SameScope env (widenAll h env histories threshold).1 :=
  sameScope_foldl Prod.fst
    (fun state entry => (raised_widenBinding threshold state entry).sameScope)
    env.bindings (env, histories)

theorem sameScope_topDivergent (env next : Environment) :
    SameScope next (topDivergent env next) :=
  sameScope_foldl (fun result => result)
    (fun result entry => (raised_any (h := .initial) env result entry).sameScope) next.bindings next

/-- A name holds its declared type in the same scope if it has kept its type, or holds it anyway. -/
theorem Typed.raise (typed : a.Typed h name) (same : SameScope a b)
    (raised : b.typeHere? name = a.typeHere? name ∨ b.Typed h name) : b.Typed h name := by
  rcases raised with kept | typed'
  · intro d member t held
    exact typed d (by rwa [← same.declared]) t (by rwa [← kept])
  · exact typed'

end Multimethod.Environment
