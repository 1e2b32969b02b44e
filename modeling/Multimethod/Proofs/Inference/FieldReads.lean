import Multimethod.Inference.Field
import Multimethod.Proofs.Hierarchy.Tree
import Multimethod.Proofs.Inference.Grounding
import Multimethod.Proofs.Inference.Probe
import Multimethod.Proofs.Lattice.Positions
import Multimethod.Proofs.Lowering.Admission

/-!
# Fields read through a supertype

A field of an instance is read with the arguments of the instance. Through the bare type it is read
with the bounds of the parameters, and through an abstract type with those of all structs below that
have it. What is read through a supertype lies above what the instance reads, as long as the
arguments keep to the bounds, and a parameter that does not stand in a covariant position is read as
what it is.
-/

namespace Multimethod

open Multimethod.Lattice

/-! ## What parameters are read as -/

namespace Hierarchy

/-- What a parameter is read as: the argument in its place, or its bound if there is none. -/
def readAs (args : List Ty) (i : Nat) (p : TypeParam) : Ty :=
  args[i]?.getD p.bound

variable {params : List TypeParam} {name : String}

theorem find?_bindParams_of_not_mem (unnamed : name ∉ params.map (·.name)) (args : List Ty)
    (known : Assoc Ty) : (bindParams params args known).find? name = known.find? name := by
  induction params generalizing args known with
  | nil => rfl
  | cons q params ih =>
      rw [List.map_cons, List.mem_cons, not_or] at unnamed
      have skip : ∀ t : Ty, (known.insert q.name t).find? name = known.find? name := fun t => by
        rw [Assoc.find?_insert, if_neg (Ne.symm unnamed.1)]
      cases args with
      | nil => rw [bindParams, ih unnamed.2, skip]
      | cons a args => rw [bindParams, ih unnamed.2, skip]

/-- Which parameter a name is bound by does not depend on the arguments: it is the last one that has
    the name. -/
theorem exists_find?_bindParams (named : name ∈ params.map (·.name)) :
    ∃ i p, params[i]? = some p ∧ p.name = name ∧ ∀ args known,
      (bindParams params args known).find? name = some (readAs args i p) := by
  induction params with
  | nil => cases named
  | cons q params ih =>
      by_cases further : name ∈ params.map (·.name)
      · obtain ⟨i, p, there, same, found⟩ := ih further
        refine ⟨i + 1, p, there, same, fun args known => ?_⟩
        cases args with
        | nil => rw [bindParams, found, readAs, readAs, List.getElem?_nil, List.getElem?_nil]
        | cons a args => rw [bindParams, found, readAs, readAs, List.getElem?_cons_succ]
      · obtain rfl : name = q.name := (List.mem_cons.1 named).resolve_right further
        refine ⟨0, q, rfl, rfl, fun args known => ?_⟩
        cases args with
        | nil =>
            rw [bindParams, find?_bindParams_of_not_mem further, Assoc.find?_insert, if_pos rfl]
            rfl
        | cons a args =>
            rw [bindParams, find?_bindParams_of_not_mem further, Assoc.find?_insert, if_pos rfl]
            rfl

end Hierarchy

/-! ## Declared field types -/

namespace TypeDecl

/-- The type that a field is declared with. -/
def fieldOf? (d : TypeDecl) (field : String) : Option Ty :=
  d.fields.bind (·.find? field)

/-- What a type that mentions the parameters of a declaration is in an instance. -/
def reading (d : TypeDecl) (t : Ty) (args : List Ty) : Ty :=
  t.substitute (Hierarchy.bindParams d.params args [])

theorem exists_of_fieldOf? {d : TypeDecl} {field : String} {t : Ty}
    (has : d.fieldOf? field = some t) :
    ∃ fields, d.fields = some fields ∧ fields.find? field = some t :=
  Option.bind_eq_some_iff.1 has

end TypeDecl

theorem Hierarchy.fieldType?_eq (h : Hierarchy) (name : String) (args : List Ty) (field : String) :
    h.fieldType? name args field =
      (h.find? name).bind fun d => (d.fieldOf? field).map (d.reading · args) := by
  unfold fieldType? TypeDecl.fieldOf?
  cases h.find? name with
  | none => rfl
  | some d =>
      cases has : d.fields with
      | none => simp [has]
      | some fields => simp [has, TypeDecl.reading]

namespace Inference

open Hierarchy (readAs)

variable {h : Hierarchy} {d : TypeDecl} {name other field : String} {t a b : Ty} {ps qs : List Ty}
  {site : CallSite}

/-- Whether a field type of instances with the arguments `ps` is read as a type above with the
    arguments `qs`, or with the bounds of the parameters if these are none. A parameter can be read
    as its bound if that mentions no parameters and its argument lies below. In a position that is
    not covariant it has to be read as a type that also lies below its argument, which is so for an
    invariant parameter with two arguments. Neither the type nor a bound may use a name that a builtin
    type former has. -/
structure ReadsAbove (h : Hierarchy) (params : List TypeParam) (t : Ty) (ps qs : List Ty) :
    Prop where
  proper : t.usesTypeNames = true
  bounds : qs = [] → ∀ (i : Nat) (p : TypeParam), params[i]? = some p →
    p.name ∈ t.vars.map (·.name) →
      (p.bound.usesTypeNames = true ∧ p.bound.hasVars = false) ∧
        ∀ a, ps[i]? = some a → isSubtype h a p.bound = true
  fixed : ∀ (i : Nat) (p : TypeParam) (a : Ty), params[i]? = some p → ps[i]? = some a →
    Fixed h p.name t → qs = [] ∨ p.variance = .covariant →
      isSubtype h (readAs qs i p) a = true

/-- Whether a parameter is read as a ground type with the arguments `ps`, and as one above with the
    arguments `qs`, the same one where it has to be. -/
structure ParamAbove (h : Hierarchy) (t : Ty) (ps qs : List Ty) (i : Nat) (p : TypeParam) :
    Prop where
  lower : (readAs ps i p).ground h = true
  upper : (readAs qs i p).ground h = true
  order : isSubtype h (readAs ps i p) (readAs qs i p) = true
  fixed : Fixed h p.name t → isSubtype h (readAs qs i p) (readAs ps i p) = true

variable {params : List TypeParam} {p : TypeParam} {i : Nat}

theorem ReadsAbove.bare (above : ReadsAbove h params t ps [])
    (inFront : BoundsInFront h params) (groundPs : ∀ a ∈ ps, a.ground h = true)
    (here : params[i]? = some p) (mentioned : p.name ∈ t.vars.map (·.name)) :
    ParamAbove h t ps [] i p := by
  obtain ⟨⟨proper, closed⟩, covers⟩ := above.bounds rfl i p here mentioned
  have ground := (inFront.mem (List.mem_of_getElem? here)).ground proper closed
  have bare : readAs [] i p = p.bound := by rw [readAs, List.getElem?_nil, Option.getD_none]
  cases given : ps[i]? with
  | none =>
      have same : readAs ps i p = readAs [] i p := by rw [bare, readAs, given, Option.getD_none]
      rw [← bare] at ground
      exact ⟨same ▸ ground, ground, same ▸ isSubtype_refl h _, fun _ => same ▸ isSubtype_refl h _⟩
  | some a =>
      have same : readAs ps i p = a := by rw [readAs, given, Option.getD_some]
      refine ⟨?_, bare ▸ ground, ?_, fun further => ?_⟩
      · rw [same]
        exact groundPs a (List.mem_of_getElem? given)
      · rw [same, bare]
        exact covers a given
      · rw [same]
        exact above.fixed i p a here given further (.inl rfl)

theorem ReadsAbove.applied (above : ReadsAbove h params t ps qs)
    (groundPs : ∀ a ∈ ps, a.ground h = true) (groundQs : ∀ b ∈ qs, b.ground h = true)
    (length : ps.length = params.length) (below : argsBelow h params ps qs = true)
    (here : params[i]? = some p) : ParamAbove h t ps qs i p := by
  obtain ⟨equal, each⟩ := argsBelow_iff.1 below
  obtain ⟨short, -⟩ := List.getElem?_eq_some_iff.1 here
  have hp : i < ps.length := length ▸ short
  have hq : i < qs.length := equal ▸ hp
  have lower : readAs ps i p = ps[i] := by
    rw [readAs, List.getElem?_eq_getElem hp, Option.getD_some]
  have upper : readAs qs i p = qs[i] := by
    rw [readAs, List.getElem?_eq_getElem hq, Option.getD_some]
  obtain ⟨order, variance⟩ := each i hp hq
  refine ⟨?_, ?_, ?_, fun further => ?_⟩
  · rw [lower]
    exact groundPs _ (List.getElem_mem hp)
  · rw [upper]
    exact groundQs _ (List.getElem_mem hq)
  · rw [lower, upper]
    exact order
  · rw [lower]
    -- an argument of an invariant parameter is equivalent to the one of the supertype
    rcases variance with covariant | same
    · rw [here] at covariant
      exact above.fixed i p ps[i] here (List.getElem?_eq_getElem hp) further
        (.inr (by simpa using covariant))
    · rw [upper]
      exact same

/-- Where a field type can be read as a type above, it is. -/
theorem ReadsAbove.reading_isSubtype (above : ReadsAbove h d.params t ps qs)
    (ordered : Hierarchy.Ordered h.decls) (admitted : d.Admitted h)
    (has : d.fieldOf? field = some t) (groundPs : ∀ a ∈ ps, a.ground h = true) (groundQs : ∀ b ∈ qs, b.ground h = true)
    (args : qs = [] ∨ ps.length = d.params.length ∧ argsBelow h d.params ps qs = true) :
    (d.reading t ps).ground h = true ∧ (d.reading t qs).ground h = true ∧
      isSubtype h (d.reading t ps) (d.reading t qs) = true := by
  obtain ⟨fields, table, listed⟩ := TypeDecl.exists_of_fieldOf? has
  have among := Assoc.mem_of_find? listed
  have inScope : t.Scoped h t.vars :=
    (admitted.fields fields table _ among).scoped above.proper fun _ mentioned => mentioned
  refine substitute_isSubtype ordered t inScope fun v mentioned => ?_
  obtain ⟨q, hq, same, -⟩ := admitted.own fields table _ among v mentioned
  obtain ⟨i, p, here, named, found⟩ :=
    Hierarchy.exists_find?_bindParams (List.mem_map.2 ⟨q, hq, same⟩)
  have param : ParamAbove h t ps qs i p := by
    rcases args with rfl | ⟨length, below⟩
    · exact above.bare admitted.bounds groundPs here (named ▸ List.mem_map_of_mem mentioned)
    · exact above.applied groundPs groundQs length below here
  exact ⟨readAs ps i p, readAs qs i p, found ps [], found qs [], param.lower, param.upper,
    param.order, named ▸ param.fixed⟩

/-- A field type that mentions no parameters is read alike with all arguments. -/
theorem ReadsAbove.of_closed (params : List TypeParam) (ps qs : List Ty)
    (proper : t.usesTypeNames = true) (closed : t.hasVars = false) :
    ReadsAbove h params t ps qs := by
  have none : ∀ name, name ∉ t.vars.map (·.name) := fun name mentioned => by
    obtain ⟨v, hv, -⟩ := List.mem_map.1 mentioned
    exact (Ty.hasVars_eq_false_iff t).1 closed v hv
  exact ⟨proper, fun _ _ _ _ mentioned => absurd mentioned (none _),
    fun _ _ _ _ _ fixed => absurd fixed.mem_vars (none _)⟩

/-- A field that has a parameter itself as its type only asks for the bound of the parameter. -/
theorem ReadsAbove.of_param {bound : Ty}
    (bounds : qs = [] → ∀ (i : Nat) (p : TypeParam), params[i]? = some p → p.name = name →
      (p.bound.usesTypeNames = true ∧ p.bound.hasVars = false) ∧
        ∀ a, ps[i]? = some a → isSubtype h a p.bound = true) :
    ReadsAbove h params (.typeVar name bound) ps qs where
  proper := rfl
  bounds bare i p here mentioned := bounds bare i p here (List.mem_singleton.1 mentioned)
  fixed _ _ _ _ _ := nofun

/-! ## Reading a field -/

/-- A type that is no union has one frame for the access. -/
theorem getField_of_single (h : Hierarchy) (site : CallSite) (single : ∀ ms, t ≠ .union ms) :
    joinReturns h (getFieldFrames h site t) = (resolveField h site [t] t).1 ∧
      ((∀ f ∈ getFieldFrames h site t, f.errors = []) ↔ (resolveField h site [t] t).2 = []) := by
  have alone : t.members = [t] := by
    cases t with
    | union ms => exact absurd rfl (single ms)
    | _ => rfl
  unfold getFieldFrames joinReturns
  rw [alone]
  exact ⟨bottom_join h _, by simp [getFieldFrame, fieldFrame]⟩

theorem structField_eq (found : h.find? name = some d)
    (has : d.fieldOf? (site.field.getD "") = some t) (args : List Ty) :
    structField h name ps site args = (d.reading t ps, []) := by
  obtain ⟨fields, table, -⟩ := TypeDecl.exists_of_fieldOf? has
  unfold structField
  dsimp only
  rw [Hierarchy.fieldType?_eq, found, Option.bind_some, Option.bind_some, table, has]
  rfl

/-- Only a field of a struct is read from an instance without a diagnostic. -/
theorem exists_of_silent_structField {args : List Ty}
    (silent : (structField h name ps site args).2 = []) :
    ∃ d t, h.find? name = some d ∧ d.fieldOf? (site.field.getD "") = some t := by
  unfold structField at silent
  dsimp only at silent
  rw [Hierarchy.fieldType?_eq] at silent
  cases found : h.find? name with
  | none => simp [found] at silent
  | some d =>
      cases has : d.fieldOf? (site.field.getD "") with
      | some t => exact ⟨d, t, rfl, has⟩
      | none => cases table : d.fields <;> simp [found, has, table] at silent

/-- What the structs below an abstract type have for a field. -/
def readingsBelow (h : Hierarchy) (name field : String) : List Ty :=
  ((h.concreteDescendants name).filter (·.fields.isSome)).filterMap fun d =>
    h.fieldType? d.name [] field

theorem inheritedField_eq (some : readingsBelow h name (site.field.getD "") ≠ [])
    (args : List Ty) : inheritedField h name site args =
      (joinAll h (readingsBelow h name (site.field.getD "")), []) := by
  unfold readingsBelow at some ⊢
  unfold inheritedField
  dsimp only
  split
  · rename_i empty
    rw [List.isEmpty_iff.1 empty] at some
    exact absurd rfl some
  · split
    · rename_i nothing
      exact absurd nothing some
    · rfl

theorem mem_readingsBelow_iff (built : h.Declared) : t ∈ readingsBelow h name field ↔
    ∃ d ∈ h.concreteDescendants name, ∃ u, d.fieldOf? field = some u ∧ d.reading u [] = t := by
  have known : ∀ d ∈ h.concreteDescendants name, h.find? d.name = some d := fun d below =>
    built.ordered.find?_of_mem ((built.isTree.leaves name d).1 below).1
  simp only [readingsBelow, List.mem_filterMap, List.mem_filter, Hierarchy.fieldType?_eq]
  constructor
  · rintro ⟨d, ⟨below, -⟩, read⟩
    rw [known d below, Option.bind_some] at read
    obtain ⟨u, has, same⟩ := Option.map_eq_some_iff.1 read
    exact ⟨d, below, u, has, same⟩
  · rintro ⟨d, below, u, has, rfl⟩
    obtain ⟨fields, table, -⟩ := TypeDecl.exists_of_fieldOf? has
    exact ⟨d, ⟨below, by rw [table, Option.isSome_some]⟩,
      by rw [known d below, Option.bind_some, has, Option.map_some]⟩

/-! ## Supertypes -/

/-- The supertypes of an instance that are no unions. -/
theorem supertype_cases (built : h.Declared) (found : h.find? d.name = some d)
    (ofA : (Ty.concrete d.name ps).ground h = true) (ofB : b.ground h = true)
    (single : ∀ ms, b ≠ .union ms) (below : isSubtype h (.concrete d.name ps) b = true) :
    b = .any ∨ (∃ qs, b = .concrete d.name qs ∧
      (qs = [] ∨ ps.length = d.params.length ∧ argsBelow h d.params ps qs = true)) ∨
    ∃ name, b = .abstract name ∧ d ∈ h.concreteDescendants name := by
  have params : h.paramsOf d.name = d.params := by rw [Hierarchy.paramsOf, found]
  cases b with
  | any => exact .inl rfl
  | bottom => cases (isSubtype_bottom_iff ofA).1 below
  | typeVar => cases ofB
  | union ms => exact absurd rfl (single ms)
  | concrete other qs =>
      obtain ⟨rfl, args⟩ := (concrete_isSubtype_concrete_iff ofA ofB).1 below
      refine .inr (.inl ⟨qs, rfl, or_iff_not_imp_left.2 fun some => ?_⟩)
      have ordered := args.resolve_left some
      have fits := (Ty.ground_concrete.1 ofB).2.1.resolve_left some
      rw [params] at ordered fits
      exact ⟨(length_eq_of_argsBelow ordered).trans fits, ordered⟩
  | abstract other =>
      have isConcrete := Hierarchy.not_isAbstract_of_hasConcrete (Ty.ground_concrete.1 ofA).1
      have isAbstract : h.isAbstract other = true := by
        simp only [Ty.ground, Hierarchy.hasAbstract, Bool.and_eq_true] at ofB
        exact ofB.2
      rw [concrete_isSubtype_abstract ofA ofB] at below
      refine .inr (.inr ⟨other, rfl, (built.isTree.leaves other d).2
        ⟨List.mem_of_find?_eq_some found, ?_, ?_, below⟩⟩)
      · rwa [Hierarchy.isAbstract, found, Option.any_some] at isConcrete
      · rintro rfl
        rw [isConcrete] at isAbstract
        cases isAbstract

/-- The ways in which a supertype of an instance reads a field, declared with the type `t`, as a
    type above the one that the instance reads. -/
inductive ReadsThrough (h : Hierarchy) (field : String) (d : TypeDecl) (t : Ty) (ps : List Ty) :
    Ty → Prop where
  | same : ReadsThrough h field d t ps (.concrete d.name ps)
  | top : ReadsThrough h field d t ps .any
  | applied {qs : List Ty} (above : ReadsAbove h d.params t ps qs) :
      ReadsThrough h field d t ps (.concrete d.name qs)
  /-- All structs below the abstract type can be read with the bounds of their parameters. -/
  | abstract {name : String} (above : ReadsAbove h d.params t ps [])
      (others : ∀ e ∈ h.concreteDescendants name, ∀ u, e.fieldOf? field = some u →
        ReadsAbove h e.params u [] []) : ReadsThrough h field d t ps (.abstract name)

/-- What an instance reads lies below what all structs below an abstract ancestor read together. -/
theorem reading_isSubtype_joinAll (built : h.Declared)
    (admitted : ∀ e ∈ h.decls, e.Admitted h) (groundPs : ∀ a ∈ ps, a.ground h = true)
    (below : d ∈ h.concreteDescendants name) (has : d.fieldOf? field = some t)
    (above : ReadsAbove h d.params t ps [])
    (others : ∀ e ∈ h.concreteDescendants name, ∀ u, e.fieldOf? field = some u →
      ReadsAbove h e.params u [] []) :
    isSubtype h (d.reading t ps) (joinAll h (readingsBelow h name field)) = true := by
  have member : ∀ e ∈ h.concreteDescendants name, e ∈ h.decls := fun e leaf =>
    ((built.isTree.leaves name e).1 leaf).1
  have grounds : ∀ u ∈ readingsBelow h name field, u.ground h = true := by
    intro u among
    obtain ⟨e, leaf, v, given, rfl⟩ := (mem_readingsBelow_iff built).1 among
    exact ((others e leaf v given).reading_isSubtype built.ordered
      (admitted e (member e leaf)) given (by simp) (by simp) (.inl rfl)).1
  obtain ⟨ground, -, bare⟩ := above.reading_isSubtype built.ordered
    (admitted d (member d below)) has groundPs (by simp) (.inl rfl)
  exact isSubtype_joinAll built.ordered grounds ground
    ((mem_readingsBelow_iff built).2 ⟨d, below, t, has, rfl⟩) bare

/-- A field that an instance has is read through every supertype of it that is no union, without a
    diagnostic. The type that is read lies above the one of the instance, as long as the instance
    keeps to the bounds that the supertype is read with, and the supertype says as much as the
    instance does about the parameters that stand in positions that are not covariant. -/
theorem field_read_through_supertype {text file : String} {unit : CompiledUnit}
    (compiled : compile text file = .ok unit)
    (ofA : (Ty.concrete name ps).ground unit.hierarchy = true)
    (ofB : b.ground unit.hierarchy = true) (single : ∀ ms, b ≠ .union ms)
    (below : isSubtype unit.hierarchy (.concrete name ps) b = true)
    (silent : ∀ f ∈ getFieldFrames unit.hierarchy site (.concrete name ps), f.errors = []) :
    (∀ f ∈ getFieldFrames unit.hierarchy site b, f.errors = []) ∧
    ∃ d t, unit.hierarchy.find? name = some d ∧ d.fieldOf? (site.field.getD "") = some t ∧
      joinReturns unit.hierarchy (getFieldFrames unit.hierarchy site (.concrete name ps)) =
        d.reading t ps ∧
      (ReadsThrough unit.hierarchy (site.field.getD "") d t ps b →
        isSubtype unit.hierarchy
          (joinReturns unit.hierarchy (getFieldFrames unit.hierarchy site (.concrete name ps)))
          (joinReturns unit.hierarchy (getFieldFrames unit.hierarchy site b)) = true) := by
  have built := (declared_of_compile compiled).1
  have admitted := admitted_decls_of_compile compiled
  have notUnion : ∀ ms, Ty.concrete name ps ≠ .union ms := nofun
  obtain ⟨read, errors⟩ := getField_of_single unit.hierarchy site notUnion
  obtain ⟨readB, errorsB⟩ := getField_of_single unit.hierarchy site single
  rw [errors, resolveField] at silent
  obtain ⟨d, t, found, has⟩ := exists_of_silent_structField silent
  have member := List.mem_of_find?_eq_some found
  obtain rfl : d.name = name := by simpa using List.find?_some found
  rw [resolveField, structField_eq found has] at read
  rw [errorsB, readB, read]
  have groundPs := (Ty.ground_concrete.1 ofA).2.2
  rcases supertype_cases built found ofA ofB single below with
    rfl | ⟨qs, rfl, args⟩ | ⟨other, rfl, leaf⟩
  · rw [resolveField]
    exact ⟨rfl, d, t, found, has, rfl, fun _ => isSubtype_any _ _⟩
  · rw [resolveField, structField_eq found has]
    refine ⟨rfl, d, t, found, has, rfl, fun through => ?_⟩
    cases through with
    | same => exact isSubtype_refl _ _
    | applied above =>
        exact (above.reading_isSubtype built.ordered (admitted d member) has groundPs
          (Ty.ground_concrete.1 ofB).2.2 args).2.2
  · have known := (mem_readingsBelow_iff built).2 ⟨d, leaf, t, has, rfl⟩
    rw [resolveField, inheritedField_eq (List.ne_nil_of_mem known)]
    refine ⟨rfl, d, t, found, has, rfl, fun through => ?_⟩
    cases through with
    | abstract above others =>
        exact reading_isSubtype_joinAll built admitted groundPs leaf has above others

namespace Examples

/-- The site of an access to the field `item`. -/
def itemSite : CallSite where
  callee := "getfield"
  loc := default
  field := some "item"

/-- The type of the field `item` in values of a type. -/
def itemOf (h : Hierarchy) (t : Ty) : Ty :=
  joinReturns h (getFieldFrames h itemSite t)

/-- Whether an access to the field `item` is without diagnostics. -/
def hasItem (h : Hierarchy) (t : Ty) : Bool :=
  (getFieldFrames h itemSite t).all (·.errors.isEmpty)

theorem hasItem_iff : hasItem h t = true ↔ ∀ f ∈ getFieldFrames h itemSite t, f.errors = [] := by
  simp [hasItem]

/-- Two structs below an abstract type, the field of one of which has a parameter as its type. -/
def shapeSource : String :=
  "abstract class Shape \x7b \x7d\n" ++
    "class Box<out T extends Number> extends Shape \x7b item: T; \x7d\n" ++
    "class Disk extends Shape \x7b item: String; \x7d\n"

/-- A box of integers. -/
def intBox : Ty := .concrete "Box" [.int]

/-- The ways to speak of a box of integers that say less. -/
def boxes : List Ty := [.concrete "Box" [.abstract "Real"], .concrete "Box" [], .abstract "Shape"]

/-- Whether the field `item` of a struct has a type without parameters, or one of its parameters,
    whose bounds mention none and cover given types. -/
def plainItem (h : Hierarchy) (covered : List Ty) (d : TypeDecl) : Bool :=
  match d.fieldOf? "item" with
  | some (.typeVar _ _) => d.params.all fun p =>
      p.bound.usesTypeNames && !p.bound.hasVars && covered.all fun a => isSubtype h a p.bound
  | some t => t.usesTypeNames && !t.hasVars
  | none => true

theorem readsAbove_of_plainItem (plain : plainItem h ps d = true)
    (has : d.fieldOf? "item" = some t) : ReadsAbove h d.params t ps qs := by
  unfold plainItem at plain
  rw [has] at plain
  split at plain
  · rename_i name bound same
    cases same
    simp only [List.all_eq_true, Bool.and_eq_true, Bool.not_eq_true'] at plain
    refine .of_param fun _ i p here _ => ?_
    obtain ⟨closed, covers⟩ := plain p (List.mem_of_getElem? here)
    exact ⟨closed, fun a given => covers a (List.mem_of_getElem? given)⟩
  · rename_i same
    cases same
    rw [Bool.and_eq_true, Bool.not_eq_true'] at plain
    exact .of_closed d.params ps qs plain.1 plain.2
  · rename_i none
    cases none

theorem field_read_through_supertype_box :
    ∃ unit, compile shapeSource "shape.tpr" = .ok unit ∧
      intBox.ground unit.hierarchy = true ∧ hasItem unit.hierarchy intBox = true ∧
      ∀ b ∈ boxes, b.ground unit.hierarchy = true ∧ (∀ ms, b ≠ .union ms) ∧
        isSubtype unit.hierarchy intBox b = true ∧ hasItem unit.hierarchy b = true ∧
        isSubtype unit.hierarchy (itemOf unit.hierarchy intBox)
          (itemOf unit.hierarchy b) = true := by
  obtain ⟨unit, compiled, computed⟩ := exists_of_any
    (show (compile shapeSource "shape.tpr").toOption.any (fun unit =>
      intBox.ground unit.hierarchy && hasItem unit.hierarchy intBox &&
        (boxes.all fun b => b.ground unit.hierarchy && b.isAtom &&
          isSubtype unit.hierarchy intBox b) &&
        ((unit.hierarchy.find? "Box").all (plainItem unit.hierarchy [.int]) &&
          (unit.hierarchy.concreteDescendants "Shape").all (plainItem unit.hierarchy []))) = true
      by decide +kernel)
  simp only [Bool.and_eq_true, List.all_eq_true] at computed
  obtain ⟨⟨⟨ground, has⟩, uppers⟩, plain, others⟩ := computed
  refine ⟨unit, compiled, ground, has, fun b member => ?_⟩
  obtain ⟨⟨groundB, atom⟩, below⟩ := uppers b member
  have single : ∀ ms, b ≠ .union ms := by
    rintro ms rfl
    cases atom
  obtain ⟨silent, d, t, found, declared, -, rises⟩ := field_read_through_supertype compiled ground
    groundB single below (hasItem_iff.1 has)
  refine ⟨groundB, single, below, hasItem_iff.2 silent, rises ?_⟩
  have named : d.name = "Box" := by simpa using List.find?_some found
  rw [found] at plain
  have above (qs : List Ty) : ReadsAbove unit.hierarchy d.params t [.int] qs :=
    readsAbove_of_plainItem plain declared
  simp only [boxes, List.mem_cons, List.not_mem_nil, or_false] at member
  rcases member with rfl | rfl | rfl
  · exact named ▸ .applied (above _)
  · exact named ▸ .applied (above _)
  · exact .abstract (above _) fun e leaf u given => readsAbove_of_plainItem (others e leaf) given

/-- A unit, an instance and a supertype of it through which the field `item` is not read as a type
    above. -/
structure Misread where
  source : String
  lower : Ty
  upper : Ty

/-- What comes out where a parameter does not stand in a covariant position, where an argument is
    not below its bound, where a bound mentions parameters, in the structs below an abstract type
    too, and where a struct has the name of unions. -/
def misreads : List Misread :=
  [ -- the elements of a bare box are read as those of a vector of anything
    ⟨"class Box<T> \x7b item: Vector<T>; \x7d\n",
      .concrete "Box" [.int], .concrete "Box" []⟩
  , -- a parameter is declared covariant and is not
    ⟨"class Box<out T> \x7b item: Vector<T>; \x7d\n",
      .concrete "Box" [.int], .concrete "Box" [.abstract "Number"]⟩
  , ⟨"class Box<T extends Number> \x7b item: T; \x7d\n",
      .concrete "Box" [.string], .concrete "Box" []⟩
  , ⟨"class Box<U, T extends Vector<U>> \x7b item: T; \x7d\n",
      .concrete "Box" [.int, .vector .int], .concrete "Box" []⟩
  , -- the variable that is left over in another struct has the id of a struct
    ⟨"class U \x7b \x7d\nabstract class Shape \x7b \x7d\n" ++
        "class Box extends Shape \x7b item: U; \x7d\n" ++
        "class Disk<U extends Number, T extends U> extends Shape \x7b item: T; \x7d\n" ++
        "class Ring extends Shape \x7b item: Number; \x7d\n",
      .concrete "Box" [], .abstract "Shape"⟩
  , -- an instance of a struct that is named as unions are is taken for a union
    ⟨"abstract class Sum \x7b \x7d\nclass Union<A, B> extends Sum \x7b \x7d\n" ++
        "abstract class Shape \x7b \x7d\n" ++
        "class Box<T extends Union<Int, String>> extends Shape \x7b item: T; \x7d\n" ++
        "class Disk extends Shape \x7b item: Sum; \x7d\n",
      .concrete "Box" [.union [.int, .string]], .abstract "Shape"⟩ ]

/-- Whether a unit shows what a misread says. -/
def Misread.shown (m : Misread) (unit : CompiledUnit) : Bool :=
  let h := unit.hierarchy
  m.lower.ground h && m.upper.ground h && m.lower.isAtom && m.upper.isAtom &&
    isSubtype h m.lower m.upper && hasItem h m.lower && hasItem h m.upper &&
      !isSubtype h (itemOf h m.lower) (itemOf h m.upper)

/-- Whether the field is read through the supertype without a diagnostic, but as a type that is not
    above. -/
def Misread.Occurs (m : Misread) : Prop :=
  ∃ unit, compile m.source "item.tpr" = .ok unit ∧
    m.lower.ground unit.hierarchy = true ∧ m.upper.ground unit.hierarchy = true ∧
    (∀ ms, m.lower ≠ .union ms) ∧ (∀ ms, m.upper ≠ .union ms) ∧
    isSubtype unit.hierarchy m.lower m.upper = true ∧
    hasItem unit.hierarchy m.lower = true ∧ hasItem unit.hierarchy m.upper = true ∧
    ¬ isSubtype unit.hierarchy (itemOf unit.hierarchy m.lower)
      (itemOf unit.hierarchy m.upper) = true

theorem Misread.occurs_of_shown {m : Misread}
    (computed : (compile m.source "item.tpr").toOption.any m.shown = true) : m.Occurs := by
  have single : ∀ t : Ty, t.isAtom = true → ∀ ms, t ≠ .union ms := by
    rintro t atom ms rfl
    cases atom
  obtain ⟨unit, compiled, shown⟩ := exists_of_any computed
  simp only [Misread.shown, Bool.and_eq_true, Bool.not_eq_true'] at shown
  obtain ⟨⟨⟨⟨⟨⟨⟨ofA, ofB⟩, atomA⟩, atomB⟩, below⟩, hasA⟩, hasB⟩, differs⟩ := shown
  exact ⟨unit, compiled, ofA, ofB, single _ atomA, single _ atomB, below, hasA, hasB,
    Bool.eq_false_iff.1 differs⟩

theorem fields_misread : misreads.Forall Misread.Occurs := by
  have computed : (misreads.all fun m =>
      (compile m.source "item.tpr").toOption.any m.shown) = true := by decide +kernel
  exact List.forall_iff_forall_mem.2 fun m member =>
    Misread.occurs_of_shown (List.all_eq_true.1 computed m member)

end Examples

end Inference

end Multimethod
