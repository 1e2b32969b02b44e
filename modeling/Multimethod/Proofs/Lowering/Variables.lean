import Multimethod.Proofs.Lowering.Annotations
import Multimethod.Proofs.Ty.Variables

/-!
# Type variables of a compiled unit

An annotation may mention the type variables of the function or class around it, and no others.
So the types of a function mention only variables of its own where-clause, the fields of a class
only its own parameters, and what stands outside of functions mentions none.
-/

namespace Multimethod.Lowering

/-! ## Types -/

/-- Whether the variables of a type are those of a scope, with their bounds. -/
def Within (s : Scope) (t : Ty) : Prop :=
  ∀ v ∈ t.vars, s.typeVars.find? v.name = some v.bound

/-- Whether no alias of a scope mentions a variable. -/
def PlainAliases (s : Scope) : Prop :=
  ∀ entry ∈ s.aliases, entry.2.hasVars = false

variable {s : Scope}

theorem within_of_closed {t : Ty} (closed : t.hasVars = false) : Within s t :=
  fun v mentioned => absurd mentioned ((Ty.hasVars_eq_false_iff t).1 closed v)

theorem hasVars_of_within {t : Ty} (none : s.typeVars = []) (within : Within s t) :
    t.hasVars = false := by
  refine (Ty.hasVars_eq_false_iff t).2 fun v mentioned => ?_
  have found := within v mentioned
  rw [none] at found
  cases found

theorem hasVars_toTy (decl : TypeDecl) : decl.toTy.hasVars = false := by
  unfold TypeDecl.toTy
  split
  · rfl
  · split <;> rfl

theorem hasVars_of_mem_literals {t : Ty} (literal : t ∈ Ty.literals) : t.hasVars = false := by
  simp only [Ty.literals, List.mem_cons, List.not_mem_nil, or_false] at literal
  rcases literal with rfl | rfl | rfl | rfl | rfl <;> rfl

theorem covered_within (plain : PlainAliases s) : s.Covered (Within s) where
  any := within_of_closed rfl
  bottom := within_of_closed rfl
  literal _ literal := within_of_closed (hasVars_of_mem_literals literal)
  union types within v mentioned := by
    obtain ⟨t, member, mentioned⟩ := Ty.mem_vars_unionOf mentioned
    exact within t member v mentioned
  typeVar name bound found v mentioned := by
    rw [List.mem_singleton.1 mentioned]
    exact found
  aliased _ _ found := within_of_closed (plain _ (Assoc.mem_of_find? found))
  declared _ decl _ _ := within_of_closed (hasVars_toTy decl)
  applied _ _ args _ _ _ within v mentioned := by
    obtain ⟨t, member, mentioned⟩ := Ty.mem_allVars.1 mentioned
    exact within t member v mentioned

/-! ## Declarations -/

/-- A bound is that of one of the parameters. -/
theorem mem_boundsOf {params : List TypeParam} {name : String} {bound : Ty}
    (member : (name, bound) ∈ boundsOf params) : ∃ p ∈ params, p.name = name ∧ p.bound = bound := by
  obtain ⟨p, hp, same⟩ := List.mem_map.1 (Assoc.mem_of_mem_ofPairs member)
  obtain ⟨rfl, rfl⟩ := Prod.mk.inj same
  exact ⟨p, hp, rfl, rfl⟩

/-- Whether the fields of a declared type mention only its own parameters. -/
def FieldsWithin (decl : TypeDecl) : Prop :=
  ∀ fields ∈ decl.fields, ∀ entry ∈ fields, ∀ v ∈ entry.2.vars,
    ∃ p ∈ decl.params, p.name = v.name ∧ p.bound = v.bound

theorem fieldsWithin_of_completeClass (plain : PlainAliases s) {c c' : DeclaredClass}
    (accepted : completeClass s c = .ok c') : FieldsWithin c'.decl := by
  obtain ⟨-, params, of⟩ := completeClass_eq_ok accepted
  intro fields has entry member v mentioned
  rw [params]
  exact mem_boundsOf
    (Assoc.mem_of_find? (of _ (covered_within plain) fields has entry member v mentioned))

/-- Whether the types of a method mention only the variables of its where-clause. -/
structure MethodWithin (m : Method) : Prop where
  params : ∀ p ∈ m.params, ∀ v ∈ p.type.vars, v ∈ m.typeParams
  returns : ∀ t ∈ m.returns, ∀ v ∈ t.vars, v ∈ m.typeParams
  body : ∀ stmts ∈ m.body, ∀ t ∈ Stmt.allTypes stmts, ∀ v ∈ t.vars, v ∈ m.typeParams

theorem methodWithin_of_lowerFunction (plain : PlainAliases s) {f : Surface.FunctionDecl}
    {m : Method} (accepted : lowerFunction s f = .ok m) : MethodWithin m := by
  obtain ⟨params, -, clause, of⟩ := lowerFunction_eq_ok accepted
  obtain ⟨ofParams, ofReturns, ofBody⟩ := of _ (covered_within plain)
  have known : ∀ t, Within (s.withTypeVars (boundsOf params)) t →
      ∀ v ∈ t.vars, v ∈ m.typeParams := by
    intro t within v mentioned
    rw [clause]
    exact List.mem_map.2 ⟨_, Assoc.mem_of_find? (within v mentioned), rfl⟩
  exact ⟨fun p hp => known _ (ofParams p hp), fun t ht => known t (ofReturns t ht),
    fun stmts has t ht => known t (ofBody stmts has t ht)⟩

/-- Aliases mention no variables, as none are known where they are declared. -/
theorem plainAliases_of_foldlM {aliases : List Surface.AliasDecl} {s' : Scope}
    (plain : PlainAliases s) (none : s.typeVars = [])
    (accepted : aliases.foldlM addAlias s = .ok s') : PlainAliases s' ∧ s'.typeVars = [] := by
  induction aliases generalizing s with
  | nil =>
      cases accepted
      exact ⟨plain, none⟩
  | cons a aliases ih =>
      rw [List.foldlM_cons] at accepted
      obtain ⟨next, here, accepted⟩ := bind_eq_ok accepted
      obtain ⟨type, lowered, rfl⟩ := addAlias_eq_ok here
      have closed := hasVars_of_within none (yields_lowerType (covered_within plain) _ type lowered)
      have kept : PlainAliases { s with aliases := s.aliases.insert a.name type } :=
        Assoc.forall_mem_insert (fun t : Ty => t.hasVars = false) plain closed
      exact ih kept none accepted

/-- The scope of a unit has plain aliases. -/
theorem plainAliases_of_unit {file : String} {h : Hierarchy} {aliases : List Surface.AliasDecl}
    (accepted : aliases.foldlM addAlias (classScope file h) = .ok s) :
    PlainAliases s ∧ s.typeVars = [] :=
  plainAliases_of_foldlM (by simp [PlainAliases, classScope]) rfl accepted

end Multimethod.Lowering
