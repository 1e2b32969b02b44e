import Multimethod.Proofs.Ty.Variables

/-!
# Types that annotations may stand for

In an admitted type every name is used as it is declared and applied to as many arguments as the
declaration has parameters, or to none, unions have the canonical form, and only given variables
occur. Unlike with ground types, any text may be the name of a type: an admitted type is in scope,
or ground, if it uses no name that builtin type formers have, and one without variables can be read
back from its id if no name in it contains a mark of ids.
-/

namespace Multimethod.Ty

/-- Whether a type uses names as they are declared, and variables of the given names only. The
    bounds of the variables count. -/
inductive Admitted (h : Hierarchy) (names : List String) : Ty → Prop
  | any : Admitted h names .any
  | bottom : Admitted h names .bottom
  | concrete {name : String} {ps : List Ty} {d : TypeDecl} (found : h.find? name = some d)
      (isConcrete : d.isAbstract = false) (fits : ps = [] ∨ ps.length = d.params.length)
      (args : ∀ p ∈ ps, Admitted h names p) : Admitted h names (.concrete name ps)
  | abstract {name : String} {d : TypeDecl} (found : h.find? name = some d)
      (isAbstract : d.isAbstract = true) : Admitted h names (.abstract name)
  | typeVar {name : String} {bound : Ty} (among : name ∈ names) (bounded : Admitted h names bound) :
      Admitted h names (.typeVar name bound)
  | union {ms : List Ty} (canonical : isCanonical ms = true)
      (members : ∀ m ∈ ms, Admitted h names m) : Admitted h names (.union ms)

variable {h : Hierarchy} {names more : List String} {t : Ty} {ts : List Ty}

theorem Admitted.mono (admitted : t.Admitted h names) (subset : names ⊆ more) :
    t.Admitted h more := by
  induction admitted with
  | any => exact .any
  | bottom => exact .bottom
  | concrete found isConcrete fits _ args => exact .concrete found isConcrete fits args
  | abstract found isAbstract => exact .abstract found isAbstract
  | typeVar among _ bounded => exact .typeVar (subset among) bounded
  | union canonical _ members => exact .union canonical members

theorem admitted_union {ms : List Ty} : (union ms).Admitted h names ↔
    isCanonical ms = true ∧ ∀ m ∈ ms, m.Admitted h names := by
  constructor
  · rintro (_ | _ | _ | _ | _ | ⟨canonical, members⟩)
    exact ⟨canonical, members⟩
  · rintro ⟨canonical, members⟩
    exact .union canonical members

/-- The union of admitted types is admitted. -/
theorem admitted_unionOf (admitted : ∀ t ∈ ts, t.Admitted h names) :
    (unionOf ts).Admitted h names :=
  unionOf_of_forall .any .bottom (fun _ => admitted_union) admitted

/-! ## Types without variables -/

theorem Admitted.hasVars_eq_false (admitted : t.Admitted h []) : t.hasVars = false := by
  induction admitted with
  | concrete _ _ _ _ ih => exact anyHasVars_eq_false_iff.2 ih
  | typeVar among => cases among
  | union _ _ ih => exact anyHasVars_eq_false_iff.2 ih
  | _ => rfl

/-- Which variables may occur does not matter where none does. -/
theorem Admitted.of_closed (admitted : t.Admitted h names) (closed : t.hasVars = false) :
    t.Admitted h more := by
  induction admitted with
  | any => exact .any
  | bottom => exact .bottom
  | concrete found isConcrete fits _ ih =>
      exact .concrete found isConcrete fits fun p hp =>
        ih p hp (anyHasVars_eq_false_iff.1 closed p hp)
  | abstract found isAbstract => exact .abstract found isAbstract
  | typeVar => cases closed
  | union canonical _ ih =>
      exact .union canonical fun m hm => ih m hm (anyHasVars_eq_false_iff.1 closed m hm)

theorem admitted_of_ground (t : Ty) (ground : t.ground h = true) : t.Admitted h names := by
  induction t using parts_induction with
  | any => exact .any
  | bottom => exact .bottom
  | abstract name =>
      have declared := (Bool.and_eq_true_iff.1 ground).2
      obtain ⟨d, found, isAbstract⟩ := (Option.any_eq_true _ _).1 declared
      exact .abstract found isAbstract
  | typeVar name bound => cases ground
  | concrete name ps ih =>
      obtain ⟨declared, fits, args⟩ := ground_concrete.1 ground
      obtain ⟨d, found, isConcrete⟩ :=
        (Option.any_eq_true _ _).1 (Bool.and_eq_true_iff.1 declared).2
      rw [Hierarchy.paramsOf, found] at fits
      exact .concrete found (Bool.not_eq_true' _ ▸ isConcrete) fits fun p hp => ih p hp (args p hp)
  | union ms ih =>
      obtain ⟨canonical, members⟩ := ground_union.1 ground
      exact .union canonical fun m hm => ih m hm (members m hm)

/-! ## Names of builtin type formers -/

mutual

/-- Whether all names of types in a type are identifiers that no builtin type former has. The bounds
    of variables do not count. -/
def usesTypeNames : Ty → Bool
  | concrete name ps => isTypeName name && allUseTypeNames ps
  | abstract name => isTypeName name
  | union ms => allUseTypeNames ms
  | _ => true

/-- Whether they are in all types of a list. -/
def allUseTypeNames : List Ty → Bool
  | [] => true
  | t :: ts => usesTypeNames t && allUseTypeNames ts

end

theorem allUseTypeNames_iff : allUseTypeNames ts = true ↔ ∀ t ∈ ts, t.usesTypeNames = true := by
  induction ts with
  | nil => simp [allUseTypeNames]
  | cons t ts ih => simp [allUseTypeNames, ih]

theorem Admitted.scoped {clause : List TypeVar} (admitted : t.Admitted h names)
    (proper : t.usesTypeNames = true) (within : ∀ v ∈ t.vars, v ∈ clause) :
    t.Scoped h clause := by
  induction admitted with
  | any => trivial
  | bottom => trivial
  | concrete found isConcrete fits _ ih =>
      rw [usesTypeNames, Bool.and_eq_true, allUseTypeNames_iff] at proper
      refine ⟨?_, ?_, allScoped_iff.2 fun p hp => ih p hp (proper.2 p hp) fun v mentioned =>
        within v (mem_allVars.2 ⟨p, hp, mentioned⟩)⟩
      · rw [Hierarchy.hasConcrete, found, proper.1, Option.any_some, isConcrete]
        rfl
      · rwa [Hierarchy.paramsOf, found]
  | abstract found isAbstract =>
      rw [usesTypeNames] at proper
      rw [Scoped, Hierarchy.hasAbstract, Hierarchy.isAbstract, found, proper, Option.any_some,
        isAbstract]
      rfl
  | typeVar => exact within _ (List.mem_singleton_self _)
  | union canonical _ ih =>
      rw [usesTypeNames, allUseTypeNames_iff] at proper
      exact ⟨canonical, allScoped_iff.2 fun m hm => ih m hm (proper m hm) fun v mentioned =>
        within v (mem_allVars.2 ⟨m, hm, mentioned⟩)⟩

theorem Admitted.ground (admitted : t.Admitted h names) (proper : t.usesTypeNames = true)
    (closed : t.hasVars = false) : t.ground h = true :=
  ground_of_scoped t (admitted.scoped proper fun _ mentioned => mentioned) closed

/-! ## Names with marks of ids -/

mutual

/-- Whether all names of types in a type stand apart from the marks of ids and from the builtin
    types, those in the bounds of variables too. The names of variables do not count. -/
def plainNames : Ty → Bool
  | concrete name ps => isPlainName name && allPlainNames ps
  | abstract name => isPlainName name
  | typeVar _ bound => plainNames bound
  | union ms => allPlainNames ms
  | _ => true

/-- Whether they do in all types of a list. -/
def allPlainNames : List Ty → Bool
  | [] => true
  | t :: ts => plainNames t && allPlainNames ts

end

theorem allPlainNames_iff : allPlainNames ts = true ↔ ∀ t ∈ ts, t.plainNames = true := by
  induction ts with
  | nil => simp [allPlainNames]
  | cons t ts ih => simp [allPlainNames, ih]

theorem plainNames_concrete {name : String} {ps : List Ty} : (concrete name ps).plainNames = true ↔
    isPlainName name = true ∧ ∀ p ∈ ps, p.plainNames = true := by
  rw [plainNames, Bool.and_eq_true, allPlainNames_iff]

/-- An admitted type without variables can be read back from its id if its names are plain. -/
theorem Admitted.readable (admitted : t.Admitted h names) (closed : t.hasVars = false)
    (plain : t.plainNames = true) : t.readable h.isAbstract = true := by
  induction admitted with
  | any => rfl
  | bottom => rfl
  | concrete found isConcrete _ _ ih =>
      obtain ⟨named, args⟩ := plainNames_concrete.1 plain
      rw [Ty.readable, named, Hierarchy.isAbstract, found, Option.any_some, isConcrete]
      exact allReadable_iff.2 fun p hp =>
        ih p hp (anyHasVars_eq_false_iff.1 closed p hp) (args p hp)
  | abstract found isAbstract =>
      rw [plainNames] at plain
      rw [Ty.readable, plain, Hierarchy.isAbstract, found, Option.any_some, isAbstract]
      rfl
  | typeVar => cases closed
  | union _ _ ih =>
      rw [plainNames, allPlainNames_iff] at plain
      exact allReadable_iff.2 fun m hm =>
        ih m hm (anyHasVars_eq_false_iff.1 closed m hm) (plain m hm)

end Multimethod.Ty
