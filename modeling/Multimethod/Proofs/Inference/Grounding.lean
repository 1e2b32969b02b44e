import Multimethod.Proofs.Inference.Variables
import Multimethod.Proofs.Lattice.Difference
import Multimethod.Proofs.Lattice.Meet
import Multimethod.Proofs.Lattice.Widening
import Multimethod.Proofs.Ty.Substitution

/-!
# Ground types in a run

If the types that a program names are well-formed, the signatures and the fields in the scope of
their type variables and everything else without any, then its analysis computes with well-formed
ground types only.
-/

namespace Multimethod

open Multimethod.Lattice

/-- The parameters of a type as the variables that its fields may mention. -/
def TypeDecl.clause (d : TypeDecl) : List TypeVar :=
  d.params.map fun param => ⟨param.name, param.bound⟩

/-- Whether the types of a declaration are well-formed: the type that its name denotes, the bounds of
    its parameters, and the fields, which only types with instances have. -/
structure TypeDecl.WellFormed (h : Hierarchy) (d : TypeDecl) : Prop where
  named : d.toTy.ground h = true
  bounds : ∀ param ∈ d.params, param.bound.ground h = true
  struct : d.fields.isSome = true → h.hasConcrete d.name = true
  fields : ∀ table ∈ d.fields, ∀ field ∈ table, field.2.Scoped h d.clause

/-- Whether the types of a method are well-formed: the signature mentions the variables of its
    where-clause only, the bounds and the body mention none. -/
structure Method.InScope (h : Hierarchy) (m : Method) : Prop where
  clause : ∀ v ∈ m.typeParams, v.bound.ground h = true
  params : ∀ p ∈ m.params, p.type.Scoped h m.typeParams
  returns : ∀ t ∈ m.returns, t.Scoped h m.typeParams
  body : ∀ stmts ∈ m.body, ∀ t ∈ Stmt.allTypes stmts, t.ground h = true

variable {h : Hierarchy} {d : TypeDecl} {m : Method} {name field : String} {args ts : List Ty}
  {t : Ty}

theorem Method.InScope.of (inScope : m.InScope h) : m.Of fun t => t.ground h = true where
  clause := inScope.clause
  bounds p hp v mentioned :=
    inScope.clause v (Ty.mem_of_mem_vars p.type (inScope.params p hp) mentioned)
  params _ ground p hp :=
    Ty.ground_erase inScope.clause _ (Ty.scoped_substitute ground _ (inScope.params p hp))
  returns _ ground t ht :=
    Ty.ground_erase inScope.clause _ (Ty.scoped_substitute ground _ (inScope.returns t ht))
  body := inScope.body

/-- Every declaration of a hierarchy is found by its name. -/
theorem Hierarchy.Ordered.find?_of_mem (ordered : Hierarchy.Ordered h.decls) (member : d ∈ h.decls) :
    h.find? d.name = some d := by
  cases found : h.find? d.name with
  | none => exact absurd (List.find?_eq_none.1 found d member) (by simp)
  | some other =>
      have named : other.name = d.name := by simpa using List.find?_some found
      rw [ordered.eq_of_name (List.mem_of_find?_eq_some found) member named]

/-- A type with fields has an instance for every list of ground arguments that fits. -/
theorem TypeDecl.WellFormed.instance (wellFormed : d.WellFormed h)
    (found : h.find? d.name = some d) (fields : d.fields.isSome = true)
    (fits : ts = [] ∨ ts.length = d.params.length) (ground : ∀ t ∈ ts, t.ground h = true) :
    (Ty.concrete d.name ts).ground h = true := by
  have params : h.paramsOf d.name = d.params := by rw [Hierarchy.paramsOf, found]
  exact Ty.ground_concrete.2 ⟨wellFormed.struct fields, params ▸ fits, ground⟩

/-- A field of an instance with ground arguments has a ground type. -/
theorem ground_fieldType? (wellFormed : ∀ d ∈ h.decls, d.WellFormed h)
    (ground : ∀ a ∈ args, a.ground h = true) (found : h.fieldType? name args field = some t) :
    t.ground h = true := by
  unfold Hierarchy.fieldType? at found
  split at found
  · cases found
  · rename_i decl declared
    have decl := wellFormed _ (List.mem_of_find?_eq_some declared)
    split at found
    · cases found
    · rename_i table has
      obtain ⟨type, here, rfl⟩ := Option.map_eq_some_iff.1 found
      refine Ty.ground_substitute ?_ (decl.fields table has _ (Assoc.mem_of_find? here)) ?_
      · exact Hierarchy.forall_mem_bindParams (fun t => t.ground h = true) decl.bounds ground
          (by simp)
      · intro v among
        obtain ⟨param, member, rfl⟩ := List.mem_map.1 among
        exact Hierarchy.isSome_bindParams (.inl ⟨param, member, rfl⟩)

theorem keeps_ground (ordered : Hierarchy.Ordered h.decls) (typesGround : h.TypesGround) :
    Keeps h fun t => t.ground h = true where
  bottom := rfl
  any := rfl
  member t ground m member := by
    cases t with
    | union ms => exact (Ty.ground_union.1 ground).2 m member
    | _ => exact List.mem_singleton.1 member ▸ ground
  arg _ _ ground := (Ty.ground_concrete.1 ground).2.2
  bound _ _ ground := by cases ground
  join _ _ := ground_join
  meet _ _ groundA groundB := (meet_lowerBound ordered groundA groundB).1
  subtract a b ground := (subtract_isSubtype ordered ground b).1
  widen ts threshold ground := (isSubtype_widen ordered typesGround ground threshold).1

namespace Inference

/-- Whether a type is well-formed and mentions no variable, in the hierarchy of a program. -/
abbrev Setting.Ground (setting : Setting) (t : Ty) : Prop :=
  t.ground setting.hierarchy = true

/-- Whether all types that a program names are well-formed. -/
structure Setting.WellFormed (setting : Setting) : Prop where
  declared : setting.hierarchy.Declared
  types : ∀ d ∈ setting.hierarchy.decls, d.WellFormed setting.hierarchy
  builtin : ∀ t ∈ [Ty.bool, .int, .nothing, .function, .vector .any, .typeOf .any],
    setting.Ground t
  methods : ∀ m ∈ setting.table.methods, m.InScope setting.hierarchy
  globals : setting.globals.Of setting.Ground

variable {setting : Setting}

/-- The analysis of such a program is closed in the well-formed ground types. -/
theorem Setting.WellFormed.closed (wellFormed : setting.WellFormed) :
    Closed setting setting.Ground := by
  have ordered := wellFormed.declared.ordered
  have named : ∀ name t, setting.hierarchy.typeOf? name = some t → setting.Ground t := by
    intro name t found
    obtain ⟨d, declared, rfl⟩ := Option.map_eq_some_iff.1 found
    exact (wellFormed.types d (List.mem_of_find?_eq_some declared)).named
  have unary : ∀ name, setting.Ground (.concrete name [.any]) → ∀ t, setting.Ground t →
      setting.Ground (.concrete name [t]) := by
    intro name ground t groundT
    obtain ⟨declared, fits, -⟩ := Ty.ground_concrete.1 ground
    exact Ty.ground_concrete.2 ⟨declared, .inr (fits.resolve_left (by simp)), by simpa using groundT⟩
  exact {
    toKeeps := keeps_ground ordered named
    bool := wellFormed.builtin _ (by simp)
    int := wellFormed.builtin _ (by simp)
    nothing := wellFormed.builtin _ (by simp)
    function := wellFormed.builtin _ (by simp)
    vector := unary _ (wellFormed.builtin (.vector .any) (by simp))
    typeOf := unary _ (wellFormed.builtin (.typeOf .any) (by simp))
    named := named
    instances := fun d member fields ts fits ground =>
      (wellFormed.types d member).instance (ordered.find?_of_mem member) fields fits ground
    fields := fun name args field t ground =>
      ground_fieldType? wellFormed.types (Ty.ground_concrete.1 ground).2.2
    methods := fun m member => (wellFormed.methods m member).of
    globals := wellFormed.globals }

end Inference

/-! ## Checking a unit -/

mutual

/-- Computes whether a type is in the scope of a where-clause with ground bounds. -/
def Ty.isScoped (h : Hierarchy) (clause : List TypeVar) : Ty → Bool
  | any => true
  | bottom => true
  | concrete name ps =>
      h.hasConcrete name && (ps.isEmpty || ps.length == (h.paramsOf name).length) &&
        allIsScoped h clause ps
  | abstract name => h.hasAbstract name
  | typeVar name bound =>
      bound.ground h &&
        clause.any fun v => v.name == name && (v.bound.ground h && v.bound.same bound)
  | union ms => isCanonical ms && allIsScoped h clause ms

/-- Computes whether all types of a list are. -/
def Ty.allIsScoped (h : Hierarchy) (clause : List TypeVar) : List Ty → Bool
  | [] => true
  | t :: ts => t.isScoped h clause && allIsScoped h clause ts

end

variable {clause : List TypeVar}

theorem Ty.allIsScoped_iff :
    Ty.allIsScoped h clause ts = true ↔ ∀ t ∈ ts, t.isScoped h clause = true := by
  induction ts with
  | nil => simp [Ty.allIsScoped]
  | cons t ts ih => simp [Ty.allIsScoped, ih]

theorem Ty.scoped_of_isScoped (t : Ty) (checked : t.isScoped h clause = true) :
    t.Scoped h clause := by
  induction t using parts_induction with
  | any => trivial
  | bottom => trivial
  | abstract name => exact checked
  | typeVar name bound =>
      simp only [isScoped, Bool.and_eq_true, List.any_eq_true, beq_iff_eq] at checked
      obtain ⟨ground, v, member, rfl, groundV, same⟩ := checked
      rw [Scoped, ← (same_iff_of_ground groundV ground).1 same]
      exact member
  | concrete name ps ih =>
      simp only [isScoped, Bool.and_eq_true, Bool.or_eq_true, List.isEmpty_iff, beq_iff_eq,
        allIsScoped_iff] at checked
      obtain ⟨⟨declared, fits⟩, args⟩ := checked
      exact ⟨declared, fits, allScoped_iff.2 fun p hp => ih p hp (args p hp)⟩
  | union ms ih =>
      rw [isScoped, Bool.and_eq_true, allIsScoped_iff] at checked
      exact ⟨checked.1, allScoped_iff.2 fun m hm => ih m hm (checked.2 m hm)⟩

/-- Computes whether the types of a declaration are well-formed. -/
def TypeDecl.isWellFormed (h : Hierarchy) (d : TypeDecl) : Bool :=
  d.toTy.ground h && d.params.all (·.bound.ground h) &&
    (d.fields.isNone || h.hasConcrete d.name) &&
      d.fields.all fun table => table.all (·.2.isScoped h d.clause)

theorem TypeDecl.wellFormed_of_isWellFormed (checked : d.isWellFormed h = true) :
    d.WellFormed h := by
  simp only [isWellFormed, Bool.and_eq_true, List.all_eq_true, Bool.or_eq_true,
    Option.all_eq_true] at checked
  obtain ⟨⟨⟨named, bounds⟩, struct⟩, fields⟩ := checked
  refine ⟨named, bounds, fun isSome => ?_, fun table has field member => ?_⟩
  · exact struct.resolve_left (by simp [Option.isSome_iff_ne_none.1 isSome])
  · exact Ty.scoped_of_isScoped _ (fields table has field member)

/-- Computes whether the types of a method are well-formed. -/
def Method.isInScope (h : Hierarchy) (m : Method) : Bool :=
  m.typeParams.all (·.bound.ground h) && m.params.all (·.type.isScoped h m.typeParams) &&
    m.returns.all (·.isScoped h m.typeParams) &&
      m.body.all fun stmts => (Stmt.allTypes stmts).all (·.ground h)

theorem Method.inScope_of_isInScope (checked : m.isInScope h = true) : m.InScope h := by
  simp only [isInScope, Bool.and_eq_true, List.all_eq_true, Option.all_eq_true] at checked
  obtain ⟨⟨⟨clause, params⟩, returns⟩, body⟩ := checked
  exact ⟨clause, fun p hp => Ty.scoped_of_isScoped _ (params p hp),
    fun t ht => Ty.scoped_of_isScoped _ (returns t ht), body⟩

/-- Computes whether all types that a unit names are well-formed. -/
def CompiledUnit.isWellFormed (unit : CompiledUnit) : Bool :=
  unit.hierarchy.decls.all (·.isWellFormed unit.hierarchy) &&
    [Ty.bool, .int, .nothing, .function, .vector .any, .typeOf .any].all (·.ground unit.hierarchy) &&
      unit.table.methods.all (·.isInScope unit.hierarchy) &&
        unit.program.globals.all (·.type.ground unit.hierarchy)

namespace Inference

theorem wellFormed_of_compile {text file : String} {unit : CompiledUnit}
    (compiled : compile text file = .ok unit) (checked : unit.isWellFormed = true)
    (options : Options) : (unit.setting options).WellFormed := by
  simp only [CompiledUnit.isWellFormed, Bool.and_eq_true, List.all_eq_true] at checked
  obtain ⟨⟨⟨types, builtin⟩, methods⟩, globals⟩ := checked
  exact {
    declared := (declared_of_compile compiled).1
    types := fun d member => TypeDecl.wellFormed_of_isWellFormed (types d member)
    builtin := builtin
    methods := fun m member => Method.inScope_of_isInScope (methods m member)
    globals := of_globalEnvironment globals }

end Inference

end Multimethod
