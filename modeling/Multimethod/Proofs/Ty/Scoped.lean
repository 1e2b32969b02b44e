import Mathlib.Data.List.Nodup
import Multimethod.Program.Method
import Multimethod.Proofs.Ty.Union
import Multimethod.Ty.Variables

/-!
# Types in the scope of a where-clause

A type in a method signature may mention the variables of the where-clause, each with the bound
that it is declared with. Erasing the variables leaves a ground type.
-/

namespace Multimethod

namespace Ty

/-- A well-formed ground type in which the bottom does not occur. -/
structure Solid (h : Hierarchy) (t : Ty) : Prop where
  ground : t.ground h = true
  bottomFree : t.bottomFree = true

theorem Solid.member {h : Hierarchy} {ms : List Ty} {m : Ty} (solid : (union ms).Solid h)
    (hm : m ∈ ms) : m.Solid h := by
  have free := solid.bottomFree
  rw [Ty.bottomFree, allBottomFree_iff] at free
  exact ⟨(ground_union.1 solid.ground).2 m hm, free m hm⟩

theorem Solid.arg {h : Hierarchy} {name : String} {ps : List Ty} {p : Ty}
    (solid : (concrete name ps).Solid h) (hp : p ∈ ps) : p.Solid h := by
  have free := solid.bottomFree
  rw [Ty.bottomFree, allBottomFree_iff] at free
  exact ⟨(ground_concrete.1 solid.ground).2.2 p hp, free p hp⟩

mutual

/-- Whether a type is well-formed and mentions only variables of a where-clause. -/
def Scoped (h : Hierarchy) (clause : List TypeVar) : Ty → Prop
  | any => True
  | bottom => True
  | concrete name ps =>
      h.hasConcrete name = true ∧ (ps = [] ∨ ps.length = (h.paramsOf name).length) ∧
        AllScoped h clause ps
  | abstract name => h.hasAbstract name = true
  | typeVar name bound => ⟨name, bound⟩ ∈ clause
  | union ms => isCanonical ms = true ∧ AllScoped h clause ms

/-- Whether all types of a list are. -/
def AllScoped (h : Hierarchy) (clause : List TypeVar) : List Ty → Prop
  | [] => True
  | t :: ts => Scoped h clause t ∧ AllScoped h clause ts

end

variable {h : Hierarchy} {clause : List TypeVar} {t : Ty} {ts ms ps : List Ty} {name : String}

theorem allScoped_iff : AllScoped h clause ts ↔ ∀ t ∈ ts, Scoped h clause t := by
  induction ts with
  | nil => simp [AllScoped]
  | cons t ts ih => simp [AllScoped, ih]

theorem anyHasVars_eq_false_iff : anyHasVars ts = false ↔ ∀ t ∈ ts, t.hasVars = false := by
  induction ts with
  | nil => simp [anyHasVars]
  | cons t ts ih => simp [anyHasVars, ih]

theorem eraseAll_eq_map (ts : List Ty) : eraseAll ts = ts.map erase := by
  induction ts with
  | nil => rfl
  | cons t ts ih => rw [eraseAll, ih, List.map_cons]

/-- Without variables a type in scope is ground. -/
theorem ground_of_scoped (t : Ty) (inScope : Scoped h clause t) (closed : t.hasVars = false) :
    t.ground h = true := by
  induction t using parts_induction with
  | any => rfl
  | bottom => rfl
  | abstract name => exact inScope
  | typeVar name bound => cases closed
  | concrete name ps ih =>
      obtain ⟨declared, fits, args⟩ := inScope
      rw [allScoped_iff] at args
      rw [hasVars, anyHasVars_eq_false_iff] at closed
      exact ground_concrete.2 ⟨declared, fits, fun p hp => ih p hp (args p hp) (closed p hp)⟩
  | union ms ih =>
      obtain ⟨canonical, members⟩ := inScope
      rw [allScoped_iff] at members
      rw [hasVars, anyHasVars_eq_false_iff] at closed
      exact ground_union.2 ⟨canonical, fun m hm => ih m hm (members m hm) (closed m hm)⟩

/-- A ground type mentions no variable. -/
theorem hasVars_eq_false_of_ground (t : Ty) (ground : t.ground h = true) : t.hasVars = false := by
  induction t using parts_induction with
  | typeVar name bound => cases ground
  | concrete name ps ih =>
      rw [hasVars, anyHasVars_eq_false_iff]
      exact fun p hp => ih p hp ((ground_concrete.1 ground).2.2 p hp)
  | union ms ih =>
      rw [hasVars, anyHasVars_eq_false_iff]
      exact fun m hm => ih m hm ((ground_union.1 ground).2 m hm)
  | _ => rfl

/-- A ground type is in the scope of every where-clause. -/
theorem scoped_of_ground (clause : List TypeVar) (t : Ty) (ground : t.ground h = true) :
    Scoped h clause t := by
  induction t using parts_induction with
  | any => trivial
  | bottom => trivial
  | abstract name => exact ground
  | typeVar name bound => cases ground
  | concrete name ps ih =>
      obtain ⟨declared, fits, args⟩ := ground_concrete.1 ground
      exact ⟨declared, fits, allScoped_iff.2 fun p hp => ih p hp (args p hp)⟩
  | union ms ih =>
      obtain ⟨canonical, members⟩ := ground_union.1 ground
      exact ⟨canonical, allScoped_iff.2 fun m hm => ih m hm (members m hm)⟩

/-! ## Bounds that mention variables -/

mutual

/-- Whether a type is well-formed, whatever variables it mentions. The bounds of the variables
    count, and may mention variables themselves. -/
def wellFormed (h : Hierarchy) : Ty → Bool
  | any => true
  | bottom => true
  | concrete name ps =>
      h.hasConcrete name && (ps.isEmpty || ps.length == (h.paramsOf name).length)
        && allWellFormed h ps
  | abstract name => h.hasAbstract name
  | typeVar _ bound => wellFormed h bound
  | union ms => isCanonical ms && allWellFormed h ms

/-- Whether all types of a list are well-formed. -/
def allWellFormed (h : Hierarchy) : List Ty → Bool
  | [] => true
  | t :: ts => wellFormed h t && allWellFormed h ts

end

theorem allWellFormed_iff : allWellFormed h ts = true ↔ ∀ t ∈ ts, t.wellFormed h = true := by
  induction ts with
  | nil => simp [allWellFormed]
  | cons t ts ih => simp [allWellFormed, ih]

theorem wellFormed_concrete :
    (concrete name ps).wellFormed h = true ↔
      h.hasConcrete name = true ∧ (ps = [] ∨ ps.length = (h.paramsOf name).length) ∧
        ∀ p ∈ ps, p.wellFormed h = true := by
  simp [wellFormed, allWellFormed_iff, and_assoc]

theorem wellFormed_union :
    (union ms).wellFormed h = true ↔ isCanonical ms = true ∧ ∀ m ∈ ms, m.wellFormed h = true := by
  simp [wellFormed, allWellFormed_iff]

/-- A type in the scope of a where-clause with ground bounds is well-formed. -/
theorem wellFormed_of_scoped (bounds : ∀ v ∈ clause, v.bound.ground h = true) (t : Ty)
    (inScope : Scoped h clause t) : t.wellFormed h = true := by
  induction t using parts_induction with
  | any => rfl
  | bottom => rfl
  | abstract name => exact inScope
  | typeVar name bound ih => exact ih (scoped_of_ground clause bound (bounds _ inScope))
  | concrete name ps ih =>
      obtain ⟨declared, fits, args⟩ := inScope
      exact wellFormed_concrete.2
        ⟨declared, fits, fun p hp => ih p hp (allScoped_iff.1 args p hp)⟩
  | union ms ih =>
      obtain ⟨canonical, members⟩ := inScope
      exact wellFormed_union.2 ⟨canonical, fun m hm => ih m hm (allScoped_iff.1 members m hm)⟩

/-- Without variables a well-formed type is ground. -/
theorem ground_of_wellFormed (t : Ty) (formed : t.wellFormed h = true)
    (closed : t.hasVars = false) : t.ground h = true := by
  induction t using parts_induction with
  | any => rfl
  | bottom => rfl
  | abstract name => exact formed
  | typeVar name bound => cases closed
  | concrete name ps ih =>
      obtain ⟨declared, fits, args⟩ := wellFormed_concrete.1 formed
      rw [hasVars, anyHasVars_eq_false_iff] at closed
      exact ground_concrete.2 ⟨declared, fits, fun p hp => ih p hp (args p hp) (closed p hp)⟩
  | union ms ih =>
      obtain ⟨canonical, members⟩ := wellFormed_union.1 formed
      rw [hasVars, anyHasVars_eq_false_iff] at closed
      exact ground_union.2 ⟨canonical, fun m hm => ih m hm (members m hm) (closed m hm)⟩

/-- Erasing the variables of a well-formed type leaves a ground type. -/
theorem ground_erase_of_wellFormed (t : Ty) (formed : t.wellFormed h = true) :
    t.erase.ground h = true := by
  induction t using parts_induction with
  | typeVar name bound ih => exact ih formed
  | concrete name ps ih =>
      rw [erase]
      split
      case isTrue => exact ground_concrete.2 ⟨(wellFormed_concrete.1 formed).1, .inl rfl, by simp⟩
      case isFalse closed => exact ground_of_wellFormed _ formed (Bool.not_eq_true _ ▸ closed)
  | union ms ih =>
      rw [erase, eraseAll_eq_map]
      exact ground_unionOf (List.forall_mem_map.2 fun m hm =>
        ih m hm ((wellFormed_union.1 formed).2 m hm))
  | abstract name => exact formed
  | _ => rfl

/-! ## Types without the bottom -/

/-- The bottom occurs in a ground type exactly if it is the bottom or occurs in an
    alternative. -/
theorem bottomFree_iff_alternatives (ground : t.ground h = true) :
    t.bottomFree = true ↔ t.alternatives ≠ [] ∧ ∀ m ∈ t.alternatives, m.bottomFree = true := by
  rcases t.atom_cases with rfl | rfl | ⟨ms, rfl⟩ | atom
  · simp [bottomFree]
  · simp [bottomFree]
  · have several := (isCanonical_iff.1 (ground_union.1 ground).1).1
    have inhabited : ms ≠ [] := by
      rintro rfl
      simp at several
    simp [bottomFree, allBottomFree_iff, inhabited]
  · simp [alternatives_of_isAtom atom]

/-- The union of several types without the bottom is one. -/
theorem solid_unionOf (several : ts ≠ []) (solid : ∀ t ∈ ts, t.Solid h) :
    (unionOf ts).Solid h := by
  have grounds : ∀ t ∈ ts, t.ground h = true := fun t ht => (solid t ht).ground
  by_cases top : any ∈ ts
  · rw [unionOf_of_any_mem grounds top]
    exact ⟨ground_any h, rfl⟩
  · obtain ⟨ground, spec⟩ := unionOf_spec grounds top
    refine ⟨ground, (bottomFree_iff_alternatives ground).2 ⟨?_, ?_⟩⟩
    · obtain ⟨t, ht⟩ := List.exists_mem_of_ne_nil ts several
      obtain ⟨nonempty, -⟩ := (bottomFree_iff_alternatives (grounds t ht)).1 (solid t ht).bottomFree
      obtain ⟨m, hm⟩ := List.exists_mem_of_ne_nil _ nonempty
      exact List.ne_nil_of_mem ((spec m).2 ⟨t, ht, hm⟩)
    · intro m hm
      obtain ⟨t, ht, hm⟩ := (spec m).1 hm
      exact ((bottomFree_iff_alternatives (grounds t ht)).1 (solid t ht).bottomFree).2 m hm

/-- Erasing the variables of a type in scope leaves a ground type without the bottom. -/
theorem solid_erase (bounds : ∀ v ∈ clause, v.bound.Solid h) (t : Ty)
    (inScope : Scoped h clause t) (free : t.bottomFree = true) : t.erase.Solid h := by
  induction t using parts_induction with
  | any => exact ⟨ground_any h, rfl⟩
  | bottom => cases free
  | abstract name => exact ⟨inScope, rfl⟩
  | typeVar name bound ih =>
      obtain ⟨ground, free⟩ := bounds _ inScope
      exact ih (scoped_of_ground clause bound ground) free
  | concrete name ps ih =>
      rw [erase]
      split
      case isTrue =>
          obtain ⟨declared, -, -⟩ := inScope
          exact ⟨ground_concrete.2 ⟨declared, Or.inl rfl, by simp⟩, rfl⟩
      case isFalse closed =>
          rw [Bool.not_eq_true] at closed
          exact ⟨ground_of_scoped _ inScope closed, free⟩
  | union ms ih =>
      obtain ⟨canonical, members⟩ := inScope
      rw [allScoped_iff] at members
      rw [bottomFree, allBottomFree_iff] at free
      rw [erase, eraseAll_eq_map]
      refine solid_unionOf ?_ (List.forall_mem_map.2 fun m hm => ih m hm (members m hm) (free m hm))
      have several := (isCanonical_iff.1 canonical).1
      rw [ne_eq, List.map_eq_nil_iff]
      rintro rfl
      simp at several

/-- What a parameter type is compared as where its variables are not bound. -/
def outline (t : Ty) : Ty :=
  if t.hasVars then t.erase else t

theorem solid_outline (bounds : ∀ v ∈ clause, v.bound.Solid h) (inScope : Scoped h clause t)
    (free : t.bottomFree = true) : t.outline.Solid h := by
  unfold outline
  split
  case isTrue => exact solid_erase bounds t inScope free
  case isFalse closed => exact ⟨ground_of_scoped t inScope (Bool.not_eq_true _ ▸ closed), free⟩

/-- Arguments that mention variables are left out of the outline. -/
theorem outline_concrete (vars : anyHasVars ps = true) :
    (concrete name ps).outline = concrete name [] := by
  simp [outline, hasVars, vars, erase]

/-! ## Types without unions -/

mutual

/-- Whether no union occurs in a type. -/
def unionFree : Ty → Bool
  | concrete _ ps => allUnionFree ps
  | union _ => false
  | _ => true

/-- Whether no union occurs in the types of a list. -/
def allUnionFree : List Ty → Bool
  | [] => true
  | t :: ts => unionFree t && allUnionFree ts

end

theorem allUnionFree_iff : allUnionFree ts = true ↔ ∀ t ∈ ts, t.unionFree = true := by
  induction ts with
  | nil => simp [allUnionFree]
  | cons t ts ih => simp [allUnionFree, ih]

end Ty

/-! ## Methods -/

/-- A where-clause whose variables have different names and ground bounds. -/
structure Clause (h : Hierarchy) (clause : List TypeVar) : Prop where
  apart : (clause.map (·.name)).Nodup
  bounds : ∀ v ∈ clause, v.bound.Solid h

theorem Clause.eq_of_name {h : Hierarchy} {clause : List TypeVar} (declared : Clause h clause)
    {v w : TypeVar} (hv : v ∈ clause) (hw : w ∈ clause) (same : v.name = w.name) : v = w :=
  List.inj_on_of_nodup_map declared.apart hv hw same

/-- A method whose types are well-formed: its parameters mention the variables of the
    where-clause only, and the bottom occurs nowhere. -/
structure Method.WellFormed (h : Hierarchy) (m : Method) : Prop where
  clause : Clause h m.typeParams
  inScope : ∀ p ∈ m.params, p.type.Scoped h m.typeParams
  bottomFree : ∀ p ∈ m.params, p.type.bottomFree = true

end Multimethod
