import Multimethod.Proofs.Environment.Merge

/-!
# The order of environments

An environment is below another one if each name that its innermost scope binds is bound there to a
type above. Where paths meet and where bindings are brought to rest, environments only rise.
-/

namespace Multimethod.Environment

open Multimethod.Lattice

variable {h : Hierarchy} {env a b c : Environment} {name : String} {t : Ty}

/-- Whether every name of the innermost scope of the first environment is bound in that of the
    second one, to a type above. -/
def Below (h : Hierarchy) (a b : Environment) : Prop :=
  ∀ name t, a.typeHere? name = some t →
    ∃ u, b.typeHere? name = some u ∧ isSubtype h t u = true

/-- Whether the innermost scope binds every name once, to a well-formed ground type. -/
structure GroundHere (h : Hierarchy) (env : Environment) : Prop where
  distinct : env.bindings.Distinct
  ground : ∀ name t, env.typeHere? name = some t → t.ground h = true

/-- Computes whether an environment is below another one. -/
def isBelow (h : Hierarchy) (a b : Environment) : Bool :=
  a.bindings.all fun entry => (a.typeHere? entry.1).all fun t =>
    (b.typeHere? entry.1).any fun u => isSubtype h t u

theorem isBelow_iff : a.isBelow h b = true ↔ a.Below h b := by
  simp only [isBelow, List.all_eq_true, Option.all_eq_true, Option.any_eq_true]
  constructor
  · intro below name t bound
    obtain ⟨x, found, -⟩ := Option.map_eq_some_iff.1 bound
    exact below _ (Assoc.mem_of_find? found) t bound
  · intro below entry _ t bound
    exact below entry.1 t bound

instance (h : Hierarchy) (a b : Environment) : Decidable (a.Below h b) :=
  decidable_of_iff _ isBelow_iff

theorem Below.refl (h : Hierarchy) (env : Environment) : env.Below h env :=
  fun _ t bound => ⟨t, bound, isSubtype_refl h t⟩

theorem Below.trans (ordered : Hierarchy.Ordered h.decls) (first : a.Below h b)
    (second : b.Below h c) (groundA : a.GroundHere h) (groundB : b.GroundHere h)
    (groundC : c.GroundHere h) : a.Below h c := by
  intro name t bound
  obtain ⟨u, boundB, below⟩ := first name t bound
  obtain ⟨v, boundC, above⟩ := second name u boundB
  exact ⟨v, boundC, isSubtype_trans ordered (groundA.ground _ _ bound) (groundB.ground _ _ boundB)
    (groundC.ground _ _ boundC) below above⟩

theorem typeHere?_eq_some :
    env.typeHere? name = some t ↔ ∃ x, env.bindings.find? name = some x ∧ x.type = t :=
  Option.map_eq_some_iff

/-! ## Merging -/

/-- A name that is bound on both paths is bound in the merge, above both of its types. -/
theorem exists_typeHere?_merge (ordered : Hierarchy.Ordered h.decls) (groundA : a.GroundHere h)
    (groundB : b.GroundHere h) {t u : Ty} (first : a.typeHere? name = some t)
    (second : b.typeHere? name = some u) :
    ∃ v, (merge h a b).typeHere? name = some v ∧ isSubtype h t v = true ∧
      isSubtype h u v = true := by
  have groundT := groundA.ground name t first
  have groundU := groundB.ground name u second
  obtain ⟨x, foundX, rfl⟩ := typeHere?_eq_some.1 first
  obtain ⟨y, foundY, rfl⟩ := typeHere?_eq_some.1 second
  have merged := find?_merge h a groundB.distinct name
  rw [foundX, foundY] at merged
  dsimp only at merged
  obtain ⟨z, added⟩ := exists_addedBinding h x y
  rw [added] at merged
  exact ⟨z.type, typeHere?_eq_some.2 ⟨z, merged, rfl⟩,
    (type_below_addedBinding ordered groundT groundU added).2⟩

theorem below_merge_left (ordered : Hierarchy.Ordered h.decls) (groundA : a.GroundHere h)
    (groundB : b.GroundHere h) : a.Below h (merge h a b) := by
  intro name t bound
  cases other : b.typeHere? name with
  | some u =>
      obtain ⟨v, merged, below, -⟩ := exists_typeHere?_merge ordered groundA groundB bound other
      exact ⟨v, merged, below⟩
  | none =>
      refine ⟨t, ?_, isSubtype_refl h t⟩
      rw [typeHere?, find?_merge h a groundB.distinct, Option.map_eq_none_iff.1 other]
      exact bound

theorem below_merge_right (ordered : Hierarchy.Ordered h.decls) (groundA : a.GroundHere h)
    (groundB : b.GroundHere h) : b.Below h (merge h a b) := by
  intro name u bound
  cases other : a.typeHere? name with
  | some t =>
      obtain ⟨v, merged, -, below⟩ := exists_typeHere?_merge ordered groundA groundB other bound
      exact ⟨v, merged, below⟩
  | none =>
      obtain ⟨y, found, rfl⟩ := typeHere?_eq_some.1 bound
      refine ⟨y.type, ?_, isSubtype_refl h _⟩
      rw [typeHere?, find?_merge h a groundB.distinct, found, Option.map_eq_none_iff.1 other]
      rfl

/-! ## The head of a loop -/

theorem typeHere?_update (env : Environment) (name other : String) (type : Ty) (kind : BindingKind)
    (declared : Option Ty) :
    (env.update name type kind declared).typeHere? other =
      if name = other then some type else env.typeHere? other := by
  unfold typeHere? update
  rw [Assoc.find?_insert]
  split <;> rfl

/-- Whether an environment is left as it is, or the name of an entry is set to a type above the one
    in the entry. -/
inductive Raised (h : Hierarchy) (entry : String × Binding) (env : Environment) :
    Environment → Prop where
  | same : Raised h entry env env
  | up {type : Ty} {kind : BindingKind} (above : isSubtype h entry.2.type type = true) :
      Raised h entry env (env.update entry.1 type kind none)

theorem Raised.typeHere?_of_ne {entry : String × Binding} (raised : Raised h entry a b)
    (other : entry.1 ≠ name) : b.typeHere? name = a.typeHere? name := by
  cases raised with
  | same => rfl
  | up above => rw [typeHere?_update, if_neg other]

theorem Raised.typeHere?_self {entry : String × Binding} (raised : Raised h entry a b)
    (bound : a.typeHere? entry.1 = some entry.2.type) :
    ∃ u, b.typeHere? entry.1 = some u ∧ isSubtype h entry.2.type u = true := by
  cases raised with
  | same => exact ⟨_, bound, isSubtype_refl h _⟩
  | up above => exact ⟨_, by rw [typeHere?_update, if_pos rfl], above⟩

section Folds

variable {σ : Type} (envOf : σ → Environment) {step : σ → String × Binding → σ}
  (raises : ∀ state entry, Raised h entry (envOf state) (envOf (step state entry)))
include raises

theorem typeHere?_foldl_of_absent {entries : Assoc Binding}
    (absent : Assoc.find? entries name = none) (state : σ) :
    (envOf (entries.foldl step state)).typeHere? name = (envOf state).typeHere? name := by
  induction entries generalizing state with
  | nil => rfl
  | cons entry rest ih =>
      obtain ⟨key, held⟩ := entry
      rw [Assoc.find?] at absent
      split at absent
      · cases absent
      · rename_i other
        rw [List.foldl_cons, ih absent, (raises state (key, held)).typeHere?_of_ne other]

/-- A walk over entries of different names that raises the bindings of an environment. -/
theorem exists_typeHere?_foldl {entries : Assoc Binding} (distinct : entries.Distinct) {x : Binding}
    (found : entries.find? name = some x) {state : σ}
    (bound : (envOf state).typeHere? name = some x.type) :
    ∃ u, (envOf (entries.foldl step state)).typeHere? name = some u ∧
      isSubtype h x.type u = true := by
  induction entries generalizing state with
  | nil => cases found
  | cons entry rest ih =>
      obtain ⟨key, held⟩ := entry
      obtain ⟨fresh, distinct⟩ := List.nodup_cons.1 distinct
      rw [List.foldl_cons]
      rw [Assoc.find?] at found
      split at found
      · rename_i same
        subst same
        cases found
        rw [typeHere?_foldl_of_absent envOf raises (Assoc.find?_eq_none_iff.2 fresh)]
        exact (raises state (key, x)).typeHere?_self bound
      · rename_i other
        refine ih distinct found ?_
        rw [(raises state (key, held)).typeHere?_of_ne other, bound]

theorem below_foldl (distinct : env.bindings.Distinct) {state : σ} (start : envOf state = env) :
    env.Below h (envOf (env.bindings.foldl step state)) := by
  intro name t bound
  obtain ⟨x, found, rfl⟩ := typeHere?_eq_some.1 bound
  exact exists_typeHere?_foldl envOf raises distinct found (start ▸ bound)

end Folds

theorem raised_widenBinding (threshold : Nat) (state : Environment × Histories)
    (entry : String × Binding) :
    Raised h entry state.1 (widenBinding h threshold state entry).1 := by
  unfold widenBinding
  dsimp only
  split
  · rename_i rises
    rw [Bool.and_eq_true] at rises
    exact .up rises.2
  · exact .same

theorem raised_any (env result : Environment) (entry : String × Binding) :
    Raised h entry result
      (if env.holds entry.1 entry.2.type then result
        else result.update entry.1 .any entry.2.kind none) := by
  split
  · exact .same
  · exact .up (isSubtype_any h _)

/-- Widening leaves every name at a type above the one it had. -/
theorem below_widenAll (h : Hierarchy) (distinct : env.bindings.Distinct) (histories : Histories)
    (threshold : Nat) : env.Below h (widenAll h env histories threshold).1 :=
  below_foldl Prod.fst (raised_widenBinding threshold) distinct rfl

theorem below_topDivergent (h : Hierarchy) (env : Environment) (distinct : a.bindings.Distinct) :
    a.Below h (topDivergent env a) :=
  below_foldl (fun env => env) (raised_any env) distinct rfl

/-- Over ground types, environments that bind the same are below each other. -/
theorem below_of_sameTypes (groundA : a.GroundHere h) (groundB : b.GroundHere h)
    (same : a.sameTypes b = true) : a.Below h b := by
  intro name t bound
  obtain ⟨x, found, rfl⟩ := typeHere?_eq_some.1 bound
  rw [sameTypes, Bool.and_eq_true, List.all_eq_true] at same
  have held := same.2 _ (Assoc.mem_of_find? found)
  unfold holds at held
  cases other : b.typeHere? name with
  | none =>
      rw [other] at held
      cases held
  | some u =>
      rw [other] at held
      have equal := (Ty.same_iff_of_ground (groundB.ground name u other)
        (groundA.ground name _ bound)).1 held
      exact ⟨u, rfl, equal ▸ isSubtype_refl h u⟩

end Multimethod.Environment
