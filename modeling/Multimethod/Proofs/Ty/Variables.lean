import Multimethod.Proofs.Assoc
import Multimethod.Proofs.Ty.Scoped

/-!
# The variables of a type

Where the variables in a type that the analysis builds come from: those of a union are those of
its members, substitution removes the variables that it binds, and erasure removes all of them.
-/

namespace Multimethod.Ty

mutual

/-- The variables of a type, once per mention, from left to right. Bounds do not count. -/
def vars : Ty → List TypeVar
  | typeVar name bound => [⟨name, bound⟩]
  | concrete _ params => allVars params
  | union members => allVars members
  | _ => []

/-- The variables of a list of types. -/
def allVars : List Ty → List TypeVar
  | [] => []
  | t :: ts => vars t ++ allVars ts

end

variable {t : Ty} {ts : List Ty} {v : TypeVar} {bindings : Assoc Ty}

theorem mem_allVars : v ∈ allVars ts ↔ ∃ t ∈ ts, v ∈ t.vars := by
  induction ts with
  | nil => simp [allVars]
  | cons t ts ih => simp [allVars, ih]

theorem hasVars_eq_false_iff (t : Ty) : t.hasVars = false ↔ ∀ v, v ∉ t.vars := by
  induction t using parts_induction with
  | typeVar name bound => simp [hasVars, vars]
  | concrete name ps ih =>
      rw [hasVars, anyHasVars_eq_false_iff, vars]
      simp only [mem_allVars, not_exists, not_and]
      exact ⟨fun none v p hp => (ih p hp).1 (none p hp) v, fun none p hp => (ih p hp).2 fun v =>
        none v p hp⟩
  | union ms ih =>
      rw [hasVars, anyHasVars_eq_false_iff, vars]
      simp only [mem_allVars, not_exists, not_and]
      exact ⟨fun none v m hm => (ih m hm).1 (none m hm) v, fun none m hm => (ih m hm).2 fun v =>
        none v m hm⟩
  | _ => simp [hasVars, vars]

/-! ## Unions -/

theorem mem_vars_of_mem_members {m : Ty} (member : m ∈ t.members) (mentioned : v ∈ m.vars) :
    v ∈ t.vars := by
  cases t with
  | union ms => exact mem_allVars.2 ⟨m, member, mentioned⟩
  | _ =>
      cases List.mem_singleton.1 member
      exact mentioned

/-- A union mentions the variables of its members only. -/
theorem mem_vars_unionOf (mentioned : v ∈ (unionOf ts).vars) : ∃ t ∈ ts, v ∈ t.vars := by
  revert mentioned
  refine unionOf_of_flatten (motive := fun u => v ∈ u.vars → _) ?bottom ?union ?member
  case bottom => rintro ⟨⟩
  case union =>
    intro ms each mentioned
    obtain ⟨m, member, mentioned⟩ := mem_allVars.1 mentioned
    exact each m member mentioned
  case member =>
    intro m member mentioned
    obtain ⟨t, among, inside⟩ := List.mem_flatMap.1 member
    exact ⟨t, among, mem_vars_of_mem_members inside mentioned⟩

theorem hasVars_unionOf (closed : ∀ t ∈ ts, t.hasVars = false) : (unionOf ts).hasVars = false := by
  refine (hasVars_eq_false_iff _).2 fun v mentioned => ?_
  obtain ⟨t, member, mentioned⟩ := mem_vars_unionOf mentioned
  exact (hasVars_eq_false_iff t).1 (closed t member) v mentioned

/-! ## Substitution -/

theorem substituteAll_eq_map (bindings : Assoc Ty) (ts : List Ty) :
    substituteAll bindings ts = ts.map (substitute bindings) := by
  induction ts with
  | nil => rfl
  | cons t ts ih => rw [substituteAll, ih, List.map_cons]

/-- Behind a substitution a type mentions variables that were not bound, and variables of the types
    that others were bound to. -/
theorem mem_vars_substitute (t : Ty) (mentioned : v ∈ (t.substitute bindings).vars) :
    (v ∈ t.vars ∧ bindings.find? v.name = none) ∨ ∃ entry ∈ bindings, v ∈ entry.2.vars := by
  induction t using parts_induction with
  | typeVar name bound =>
      rw [substitute] at mentioned
      cases found : bindings.find? name with
      | none =>
          rw [found, Option.getD_none, vars, List.mem_singleton] at mentioned
          rw [mentioned]
          exact .inl ⟨List.mem_singleton_self _, found⟩
      | some u =>
          rw [found, Option.getD_some] at mentioned
          exact .inr ⟨_, Assoc.mem_of_find? found, mentioned⟩
  | concrete name ps ih =>
      rw [substitute, vars, substituteAll_eq_map, mem_allVars] at mentioned
      obtain ⟨_, member, mentioned⟩ := mentioned
      obtain ⟨p, hp, rfl⟩ := List.mem_map.1 member
      exact (ih p hp mentioned).imp_left fun ⟨inside, free⟩ => ⟨mem_allVars.2 ⟨p, hp, inside⟩, free⟩
  | union ms ih =>
      rw [substitute, substituteAll_eq_map] at mentioned
      obtain ⟨_, member, mentioned⟩ := mem_vars_unionOf mentioned
      obtain ⟨m, hm, rfl⟩ := List.mem_map.1 member
      exact (ih m hm mentioned).imp_left fun ⟨inside, free⟩ => ⟨mem_allVars.2 ⟨m, hm, inside⟩, free⟩
  | _ => cases mentioned

/-- A type all variables of which are bound to types without variables has none any more. -/
theorem hasVars_substitute (bound : ∀ v ∈ t.vars, (bindings.find? v.name).isSome = true)
    (closed : ∀ entry ∈ bindings, entry.2.hasVars = false) :
    (t.substitute bindings).hasVars = false := by
  refine (hasVars_eq_false_iff _).2 fun v mentioned => ?_
  rcases mem_vars_substitute t mentioned with ⟨inside, free⟩ | ⟨entry, member, inside⟩
  · have found := bound v inside
    rw [free] at found
    cases found
  · exact (hasVars_eq_false_iff _).1 (closed entry member) v inside

/-- An erased type mentions no variables. -/
theorem hasVars_erase (t : Ty) : t.erase.hasVars = false := by
  induction t using parts_induction with
  | typeVar name bound ih => exact ih
  | concrete name ps =>
      rw [erase]
      split
      · rfl
      · rename_i closed
        exact Bool.not_eq_true _ ▸ closed
  | union ms ih =>
      rw [erase, eraseAll_eq_map]
      exact hasVars_unionOf (List.forall_mem_map.2 ih)
  | _ => rfl

end Multimethod.Ty
