import Multimethod.Proofs.Ty.Admitted

/-!
# Types in scope under substitution

What a signature says stays well-formed when its variables are bound to ground types, and is ground
once they are all bound or erased.
-/

namespace Multimethod.Ty

variable {h : Hierarchy} {clause : List TypeVar} {names : List String} {t m : Ty} {ts : List Ty}
  {bindings : Assoc Ty}

/-! ## Unions -/

/-- The union of types in scope is in scope. -/
theorem scoped_unionOf (inScope : ∀ t ∈ ts, t.Scoped h clause) : (unionOf ts).Scoped h clause :=
  unionOf_of_forall trivial trivial (fun ms => by rw [Scoped, allScoped_iff]) inScope

/-! ## Substitution -/

theorem mem_of_mem_vars {v : TypeVar} (t : Ty) (inScope : t.Scoped h clause)
    (mentioned : v ∈ t.vars) : v ∈ clause := by
  induction t using parts_induction with
  | typeVar name bound =>
      rw [List.mem_singleton.1 mentioned]
      exact inScope
  | concrete name ps ih =>
      obtain ⟨p, hp, inside⟩ := mem_allVars.1 mentioned
      exact ih p hp (allScoped_iff.1 inScope.2.2 p hp) inside
  | union ms ih =>
      obtain ⟨m, hm, inside⟩ := mem_allVars.1 mentioned
      exact ih m hm (allScoped_iff.1 inScope.2 m hm) inside
  | _ => cases mentioned

/-- Binding variables to ground types leaves a type in scope. -/
theorem scoped_substitute (ground : ∀ entry ∈ bindings, entry.2.ground h = true) (t : Ty)
    (inScope : t.Scoped h clause) : (t.substitute bindings).Scoped h clause := by
  induction t using parts_induction with
  | typeVar name bound =>
      rw [substitute]
      cases found : bindings.find? name with
      | none => exact inScope
      | some u => exact scoped_of_ground clause u (ground _ (Assoc.mem_of_find? found))
  | concrete name ps ih =>
      obtain ⟨declared, fits, args⟩ := inScope
      rw [allScoped_iff] at args
      rw [substitute, substituteAll_eq_map]
      refine ⟨declared, fits.imp (by simp_all) (by simp), allScoped_iff.2 ?_⟩
      exact List.forall_mem_map.2 fun p hp => ih p hp (args p hp)
  | union ms ih =>
      have members := allScoped_iff.1 inScope.2
      rw [substitute, substituteAll_eq_map]
      exact scoped_unionOf (List.forall_mem_map.2 fun m hm => ih m hm (members m hm))
  | _ => exact inScope

/-- Binding all variables of a type in scope to ground types makes it ground. -/
theorem ground_substitute (ground : ∀ entry ∈ bindings, entry.2.ground h = true)
    (inScope : t.Scoped h clause)
    (bound : ∀ v ∈ clause, (bindings.find? v.name).isSome = true) :
    (t.substitute bindings).ground h = true := by
  refine ground_of_scoped _ (scoped_substitute ground t inScope)
    (hasVars_substitute (fun v mentioned => bound v (mem_of_mem_vars t inScope mentioned)) ?_)
  exact fun entry member => hasVars_eq_false_of_ground _ (ground entry member)

/-- Erasing the variables of a type in scope makes it ground. -/
theorem ground_erase (bounds : ∀ v ∈ clause, v.bound.ground h = true) (t : Ty)
    (inScope : t.Scoped h clause) : t.erase.ground h = true :=
  ground_erase_of_wellFormed t (wellFormed_of_scoped bounds t inScope)

/-! ## Types without variables -/

theorem substitute_of_closed (bindings : Assoc Ty) (admitted : t.Admitted h names)
    (closed : t.hasVars = false) : t.substitute bindings = t := by
  induction admitted with
  | typeVar => cases closed
  | @concrete name ps d _ _ _ _ ih =>
      have same := List.map_congr_left fun p hp => ih p hp (anyHasVars_eq_false_iff.1 closed p hp)
      rw [substitute, substituteAll_eq_map, same, List.map_id']
  | union canonical _ ih =>
      have same := List.map_congr_left fun m hm => ih m hm (anyHasVars_eq_false_iff.1 closed m hm)
      rw [substitute, substituteAll_eq_map, same, List.map_id', unionOf_of_isCanonical canonical]
  | _ => rfl

theorem erase_of_closed (admitted : t.Admitted h names) (closed : t.hasVars = false) :
    t.erase = t := by
  induction admitted with
  | typeVar => cases closed
  | concrete => exact if_neg (Bool.not_eq_true _ ▸ closed)
  | union canonical _ ih =>
      have same := List.map_congr_left fun m hm => ih m hm (anyHasVars_eq_false_iff.1 closed m hm)
      rw [erase, eraseAll_eq_map, same, List.map_id', unionOf_of_isCanonical canonical]
  | _ => rfl

theorem substitute_of_ground (bindings : Assoc Ty) (t : Ty) (ground : t.ground h = true) :
    t.substitute bindings = t :=
  have admitted : t.Admitted h [] := admitted_of_ground t ground
  substitute_of_closed bindings admitted admitted.hasVars_eq_false

theorem erase_of_ground (t : Ty) (ground : t.ground h = true) : t.erase = t :=
  have admitted : t.Admitted h [] := admitted_of_ground t ground
  erase_of_closed admitted admitted.hasVars_eq_false

/-- A well-formed type is in the scope of the variables that it mentions. -/
theorem scoped_vars_of_wellFormed (t : Ty) (formed : t.wellFormed h = true) :
    ∀ clause, (∀ v ∈ t.vars, v ∈ clause) → t.Scoped h clause := by
  induction t using parts_induction with
  | any => exact fun _ _ => trivial
  | bottom => exact fun _ _ => trivial
  | abstract name => exact fun _ _ => formed
  | typeVar name bound => exact fun _ inClause => inClause _ (List.mem_singleton_self _)
  | concrete name ps ih =>
      obtain ⟨declared, fits, args⟩ := wellFormed_concrete.1 formed
      exact fun clause inClause => ⟨declared, fits, allScoped_iff.2 fun p hp =>
        ih p hp (args p hp) clause fun v hv => inClause v (mem_allVars.2 ⟨p, hp, hv⟩)⟩
  | union ms ih =>
      obtain ⟨canonical, members⟩ := wellFormed_union.1 formed
      exact fun clause inClause => ⟨canonical, allScoped_iff.2 fun m hm =>
        ih m hm (members m hm) clause fun v hv => inClause v (mem_allVars.2 ⟨m, hm, hv⟩)⟩

/-- A well-formed type is ground once its variables are bound to ground types. -/
theorem ground_substitute_of_wellFormed (ground : ∀ entry ∈ bindings, entry.2.ground h = true)
    (formed : t.wellFormed h = true) (closed : (t.substitute bindings).hasVars = false) :
    (t.substitute bindings).ground h = true :=
  ground_of_scoped _
    (scoped_substitute ground t (scoped_vars_of_wellFormed t formed t.vars fun _ hv => hv)) closed

/-! ## Admitted types -/

theorem admitted_substitute (bound : ∀ entry ∈ bindings, entry.2.Admitted h names)
    (admitted : t.Admitted h names) : (t.substitute bindings).Admitted h names := by
  induction admitted with
  | any => exact .any
  | bottom => exact .bottom
  | @concrete name ps d found isConcrete fits _ ih =>
      rw [substitute, substituteAll_eq_map]
      exact .concrete found isConcrete (by simpa using fits) (List.forall_mem_map.2 ih)
  | abstract found isAbstract => exact .abstract found isAbstract
  | @typeVar name upper among bounded =>
      rw [substitute]
      cases found : bindings.find? name with
      | none => exact .typeVar among bounded
      | some u => exact bound _ (Assoc.mem_of_find? found)
  | union _ _ ih =>
      rw [substitute, substituteAll_eq_map]
      exact admitted_unionOf (List.forall_mem_map.2 ih)

theorem admitted_erase (admitted : t.Admitted h names) : t.erase.Admitted h names := by
  induction admitted with
  | any => exact .any
  | bottom => exact .bottom
  | concrete found isConcrete fits args =>
      rw [erase]
      split
      · exact .concrete found isConcrete (.inl rfl) (by simp)
      · exact .concrete found isConcrete fits args
  | abstract found isAbstract => exact .abstract found isAbstract
  | typeVar _ _ ih => exact ih
  | union _ _ ih =>
      rw [erase, eraseAll_eq_map]
      exact admitted_unionOf (List.forall_mem_map.2 ih)

end Multimethod.Ty
