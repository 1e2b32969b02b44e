import Multimethod.Environment.Merge
import Multimethod.Proofs.Assoc
import Multimethod.Proofs.Lattice.Join

/-!
# What a merge of environments binds

A merge is computed by a fold over the bindings of the second path. Read name by name, it keeps
a binding that stands on one path only and joins the types of one that stands on both.
-/

namespace Multimethod.Environment

open Multimethod.Lattice

variable {h : Hierarchy} {env a b : Environment} {name : String}

theorem lookup_eq (env : Environment) (name : String) :
    env.lookup name =
      (env.bindings.find? name).or (env.parent.bind fun outer => outer.lookup name) := by
  obtain ⟨bindings, parent, kind⟩ := env
  rw [lookup.eq_def]
  dsimp only
  cases bindings.find? name with
  | some binding => rfl
  | none => cases parent <;> rfl

/-- A binding of the innermost scope hides those further out. -/
theorem lookup_of_find? {binding : Binding} (found : env.bindings.find? name = some binding) :
    env.lookup name = some binding := by
  rw [lookup_eq, found]
  rfl

theorem lookup_of_not_bound (unbound : env.bindings.find? name = none) :
    env.lookup name = env.parent.bind fun outer => outer.lookup name := by
  rw [lookup_eq, unbound]
  rfl

/-- What is bound to a name after a binding of the second path was added: `first` is bound on
    the first path, and `held` was bound so far. -/
def addedBinding (h : Hierarchy) (first held : Option Binding) (other : Binding) :
    Option Binding :=
  match first with
  | none => some other
  | some binding =>
      if binding.type.same other.type then held
      else
        some { binding with
          type := join h binding.type other.type
          declared := binding.declared.or other.declared }

/-- A name that is bound on both paths stays bound. -/
theorem exists_addedBinding (h : Hierarchy) (x y : Binding) :
    ∃ z, addedBinding h (some x) (some x) y = some z := by
  unfold addedBinding
  dsimp only
  split
  · exact ⟨_, rfl⟩
  · exact ⟨_, rfl⟩

theorem find?_mergeBinding (h : Hierarchy) (first merged : Assoc Binding) (key name : String)
    (other : Binding) :
    (mergeBinding h first merged (key, other)).find? name =
      if key = name then addedBinding h (first.find? name) (merged.find? name) other
      else merged.find? name := by
  unfold mergeBinding
  dsimp only
  by_cases same : key = name
  · subst same
    rw [if_pos rfl]
    cases found : first.find? key with
    | none => simp [addedBinding, Assoc.find?_insert]
    | some binding =>
        by_cases equal : binding.type.same other.type = true
        · simp [addedBinding, equal]
        · simp [addedBinding, equal, Assoc.find?_insert]
  · rw [if_neg same]
    cases found : first.find? key with
    | none => simp [Assoc.find?_insert, same]
    | some binding =>
        by_cases equal : binding.type.same other.type = true
        · simp [equal]
        · simp [equal, Assoc.find?_insert, same]

/-- Of entries with different names only the one of `name` changes what is bound to it. -/
theorem find?_foldl_mergeBinding (h : Hierarchy) (first : Assoc Binding) (name : String)
    {entries : Assoc Binding} (distinct : entries.Distinct) (merged : Assoc Binding) :
    (entries.foldl (mergeBinding h first) merged).find? name =
      match entries.find? name with
      | none => merged.find? name
      | some other => addedBinding h (first.find? name) (merged.find? name) other := by
  induction entries generalizing merged with
  | nil => rfl
  | cons entry rest ih =>
      obtain ⟨key, other⟩ := entry
      have apart := List.nodup_cons.1 distinct
      rw [List.foldl_cons, ih apart.2, find?_mergeBinding]
      by_cases same : key = name
      · subst same
        have absent : Assoc.find? rest key = none := Assoc.find?_eq_none_iff.2 apart.1
        simp only [absent, Assoc.find?, if_true]
      · simp only [Assoc.find?, same, if_false]

theorem find?_merge (h : Hierarchy) (a : Environment) (distinct : b.bindings.Distinct)
    (name : String) :
    (merge h a b).bindings.find? name =
      match b.bindings.find? name with
      | none => a.bindings.find? name
      | some other =>
          addedBinding h (a.bindings.find? name) (a.bindings.find? name) other :=
  find?_foldl_mergeBinding h a.bindings name distinct a.bindings

/-- A merge binds what is bound on either path. -/
theorem find?_merge_eq_none (distinct : b.bindings.Distinct) :
    (merge h a b).bindings.find? name = none ↔
      a.bindings.find? name = none ∧ b.bindings.find? name = none := by
  rw [find?_merge h a distinct]
  cases b.bindings.find? name with
  | none => simp
  | some other =>
      cases a.bindings.find? name with
      | none => simp [addedBinding]
      | some binding =>
          simp only [addedBinding]
          split <;> simp

theorem distinct_mergeBinding {first merged : Assoc Binding} (distinct : merged.Distinct)
    (entry : String × Binding) : (mergeBinding h first merged entry).Distinct := by
  unfold mergeBinding
  split
  · exact distinct.insert _ _
  · split
    · exact distinct
    · exact distinct.insert _ _

theorem distinct_foldl_mergeBinding {first merged : Assoc Binding} (distinct : merged.Distinct)
    (entries : Assoc Binding) : (entries.foldl (mergeBinding h first) merged).Distinct := by
  induction entries generalizing merged with
  | nil => exact distinct
  | cons entry rest ih => exact ih (distinct_mergeBinding distinct entry)

theorem distinct_merge (h : Hierarchy) (distinct : a.bindings.Distinct) (b : Environment) :
    (merge h a b).bindings.Distinct :=
  distinct_foldl_mergeBinding distinct b.bindings

/-- Of two paths that get to a point both are merged; where only one does, it goes on alone. -/
theorem mergeFlows_pair (h : Hierarchy) (first second : Flow) :
    mergeFlows h [first, second] =
      match first, second with
      | none, second => second
      | some a, none => some a
      | some a, some b => some (merge h a b) := by
  cases first <;> cases second <;> rfl

/-- What holds on every path, and of the merge of two environments of which it holds, holds where
    the paths meet. -/
theorem forall_mem_mergeFlows {p : Environment → Prop}
    (merges : ∀ a b, p a → p b → p (merge h a b)) {flows : List Flow}
    (paths : ∀ flow ∈ flows, ∀ env ∈ flow, p env) : ∀ env ∈ mergeFlows h flows, p env := by
  unfold mergeFlows
  refine List.foldlRecOn (motive := fun flow : Flow => ∀ env ∈ flow, p env) flows _ (by simp) ?_
  intro acc ofAcc flow member
  cases acc with
  | none => exact paths flow member
  | some env =>
      cases flow with
      | none => exact ofAcc
      | some other =>
          rintro _ ⟨⟩
          exact merges env other (ofAcc env rfl) (paths _ member other rfl)

/-- The joined type of a name that both paths bind lies above both of its types. -/
theorem type_below_addedBinding (ordered : Hierarchy.Ordered h.decls) {x y z : Binding}
    (hx : x.type.ground h = true) (hy : y.type.ground h = true)
    (added : addedBinding h (some x) (some x) y = some z) :
    z.type.ground h = true ∧ isSubtype h x.type z.type = true ∧
      isSubtype h y.type z.type = true := by
  unfold addedBinding at added
  dsimp only at added
  by_cases same : x.type.same y.type = true
  · rw [if_pos same] at added
    cases added
    have equal : x.type = y.type := (Ty.same_iff_of_ground hx hy).1 same
    rw [← equal]
    exact ⟨hx, isSubtype_refl h _, isSubtype_refl h _⟩
  · rw [if_neg same] at added
    cases added
    exact ⟨ground_join hx hy, isSubtype_join ordered hx hy⟩

end Multimethod.Environment
