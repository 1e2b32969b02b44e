import Mathlib.Data.Set.Finite.List
import Mathlib.Logic.Relation
import Mathlib.Order.WellFoundedSet
import Multimethod.Proofs.Hierarchy.Tree
import Multimethod.Proofs.Lowering.Declarations

/-!
# Classes that can be declared

Whether classes can be declared in some order depends on their names and on what they extend: the
names are new, the supertypes are there and abstract, and no class stands above itself. Declaring
one of them keeps this condition for the others, and can be taken back. While it holds, the
supertype of some class is declared already.
-/

namespace Multimethod

open Lowering Surface

/-! ## What a class declares -/

namespace Surface.ClassDecl

/-- The name of the superclass, where there is one that is a name. -/
def superName? (c : ClassDecl) : Option String :=
  match c.superclass.map Expr.bare with
  | some (.name name _) => some name
  | _ => none

/-- The type right above that of a class. -/
def above (c : ClassDecl) : String :=
  c.superName?.getD "Any"

/-- Whether a class has the form of a type: its superclass is a name without arguments, an abstract
    class has neither parameters nor members, and parameters have no bounds. -/
structure WellShaped (c : ClassDecl) : Prop where
  superclass : ∀ e ∈ c.superclass, ∃ name start, e.bare = .name name start
  noSuperArgs : c.hasSuperArgs = false
  noParams : c.isAbstract = true → c.typeParams = []
  noMembers : c.isAbstract = true → c.members = []
  noBounds : ∀ p ∈ c.typeParams, p.bound = none

/-- The declaration of the type of a class, without fields yet. -/
def toDecl (file : String) (c : ClassDecl) : TypeDecl where
  name := c.name
  isAbstract := c.isAbstract
  supertype := some c.above
  params := c.typeParams.map fun p =>
    ⟨p.name, if p.isOut then .covariant else .invariant, .any⟩
  fields := if c.isAbstract then none else some []
  loc := some ⟨file, c.start.line, c.start.column⟩

end Surface.ClassDecl

/-- Whether a class of a name extends what has another name. -/
def Extends (classes : List ClassDecl) (name above : String) : Prop :=
  ∃ c ∈ classes, c.name = name ∧ c.superName? = some above

/-- Whether classes can be declared on top of a hierarchy. -/
structure Declarable (h : Hierarchy) (classes : List ClassDecl) : Prop where
  apart : (classes.map (·.name)).Nodup
  fresh : ∀ c ∈ classes, h.has c.name = false
  known : ∀ c ∈ classes, ∀ above ∈ c.superName?,
    h.has above = true ∨ ∃ d ∈ classes, d.name = above
  isAbstract : ∀ c ∈ classes, ∀ above ∈ c.superName?,
    (h.has above = true → h.isAbstract above = true) ∧
      ∀ d ∈ classes, d.name = above → d.isAbstract = true
  acyclic : ∀ name, ¬ Relation.TransGen (Extends classes) name name

variable {file : String} {h next : Hierarchy} {c : ClassDecl}
  {classes others front rest : List ClassDecl} {name above : String}

theorem extends_mono (subset : classes ⊆ others)
    (path : Relation.TransGen (Extends classes) name above) :
    Relation.TransGen (Extends others) name above :=
  Relation.TransGen.mono (fun _ _ ⟨c, member, edge⟩ => ⟨c, subset member, edge⟩) _ _ path

theorem Declarable.perm (declarable : Declarable h classes) (same : classes.Perm others) :
    Declarable h others where
  apart := (same.map _).nodup_iff.1 declarable.apart
  fresh c member := declarable.fresh c (same.mem_iff.2 member)
  known c member above named :=
    (declarable.known c (same.mem_iff.2 member) above named).imp_right
      fun ⟨d, among, found⟩ => ⟨d, same.mem_iff.1 among, found⟩
  isAbstract c member above named :=
    (declarable.isAbstract c (same.mem_iff.2 member) above named).imp_right
      fun all d among => all d (same.mem_iff.2 among)
  acyclic name cycle :=
    declarable.acyclic name (extends_mono (fun _ => same.mem_iff.2) cycle)

theorem declarable_nil (h : Hierarchy) : Declarable h [] where
  apart := List.nodup_nil
  fresh := by simp
  known := by simp
  isAbstract := by simp
  acyclic name cycle := by
    obtain ⟨_, ⟨c, member, -⟩, -⟩ := Relation.TransGen.head'_iff.1 cycle
    cases member

/-! ## One declaration -/

namespace Hierarchy

theorem has_of_isAbstract (isAbstract : h.isAbstract name = true) : h.has name = true := by
  obtain ⟨d, found, -⟩ := (Option.any_eq_true _ _).1 isAbstract
  rw [has, found]
  rfl

variable {decl : TypeDecl}

theorem isAbstract_of_declare (accepted : h.declare decl = .ok next)
    (isAbstract : h.isAbstract name = true) : next.isAbstract name = true := by
  obtain ⟨d, found, isAbstract⟩ := (Option.any_eq_true _ _).1 isAbstract
  rw [Hierarchy.isAbstract, find?_of_declare accepted found]
  exact isAbstract

theorem Declared.isAbstract_any (built : h.Declared) : h.isAbstract "Any" = true := by
  induction built with
  | initial => rfl
  | declare _ accepted ih => exact isAbstract_of_declare accepted ih

theorem has_declare (accepted : h.declare decl = .ok next) (name : String) :
    next.has name = true ↔ decl.name = name ∨ h.has name = true := by
  rw [has, find?_declare accepted]
  by_cases same : decl.name = name <;> simp [same, has]

theorem isAbstract_declare (accepted : h.declare decl = .ok next) (name : String) :
    next.isAbstract name = if decl.name = name then decl.isAbstract else h.isAbstract name := by
  rw [isAbstract, find?_declare accepted]
  by_cases same : decl.name = name <;> simp [same, isAbstract]

/-- A declaration is accepted if its name is new and its supertype declared and abstract. -/
theorem exists_declare (fresh : h.has decl.name = false)
    (isAbstract : h.isAbstract (decl.supertype.getD "Any") = true) :
    ∃ next, h.declare decl = .ok next := by
  obtain ⟨parent, found, isAbstract⟩ := (Option.any_eq_true _ _).1 isAbstract
  unfold declare
  simp only [fresh, found, isAbstract, Bool.false_eq_true, if_false, if_true]
  exact ⟨_, rfl⟩

theorem parent?_declare (accepted : h.declare decl = .ok next) (name : String) :
    next.parent? name =
      if decl.name = name then some (decl.supertype.getD "Any") else h.parent? name := by
  rw [parent?, find?_declare accepted]
  split <;> rfl

end Hierarchy

/-! ## One class -/

@[simp] theorem name_toDecl (file : String) (c : ClassDecl) : (c.toDecl file).name = c.name := rfl

@[simp] theorem supertype_toDecl (file : String) (c : ClassDecl) :
    (c.toDecl file).supertype.getD "Any" = c.above := rfl

/-- What a class extends is there and abstract once it is declared. -/
theorem facts_of_declare (accepted : h.declare (c.toDecl file) = .ok next) :
    h.has c.name = false ∧ h.isAbstract c.above = true := by
  obtain ⟨fresh, parent, found, isAbstract, -⟩ := Hierarchy.declare_eq_ok accepted
  rw [supertype_toDecl] at found
  have unknown : h.find? c.name = none := fresh
  exact ⟨by rw [Hierarchy.has, unknown]; rfl, by rw [Hierarchy.isAbstract, found]; exact isAbstract⟩

theorem above_of_superName? (named : above ∈ c.superName?) : c.above = above := by
  rw [ClassDecl.above, Option.mem_def.1 named]
  rfl

section Step

variable (accepted : h.declare (c.toDecl file) = .ok next)
include accepted

/-- Classes that are new behind a declared class were new in front of it, and so was the class. -/
theorem fresh_of_declare (fresh : ∀ d ∈ rest, next.has d.name = false) :
    ∀ d ∈ c :: rest, h.has d.name = false := by
  refine List.forall_mem_cons.2 ⟨(facts_of_declare accepted).1, fun d member => ?_⟩
  rw [Bool.eq_false_iff]
  intro known
  have known := (Hierarchy.has_declare accepted d.name).2 (.inr known)
  rw [fresh d member] at known
  cases known

/-- A cycle does not pass through a class whose supertype is declared already. -/
theorem extends_of_cons (fresh : ∀ d ∈ c :: rest, h.has d.name = false)
    (path : Relation.TransGen (Extends (c :: rest)) name above)
    (further : ∃ d ∈ c :: rest, d.name = above) :
    Relation.TransGen (Extends rest) name above := by
  have isAbstract := (facts_of_declare accepted).2
  have inside : ∀ {n m}, Extends (c :: rest) n m → (∃ d ∈ c :: rest, d.name = m) →
      Extends rest n m := by
    rintro n m ⟨d, member, named, super⟩ ⟨e, among, rfl⟩
    rcases List.mem_cons.1 member with rfl | member
    · rw [above_of_superName? super] at isAbstract
      have known := Hierarchy.has_of_isAbstract isAbstract
      rw [fresh e among] at known
      cases known
    · exact ⟨d, member, named, super⟩
  induction path with
  | single first => exact .single (inside first further)
  | tail _ last ih =>
      have start : ∃ d ∈ c :: rest, d.name = _ := last.imp fun d edge => ⟨edge.1, edge.2.1⟩
      exact .tail (ih start) (inside last further)

/-- The classes that are left can be declared behind one that is declared. -/
theorem Declarable.behind (declarable : Declarable h (c :: rest)) : Declarable next rest where
  apart := (List.nodup_cons.1 declarable.apart).2
  fresh d member := by
    rw [Bool.eq_false_iff]
    intro known
    rcases (Hierarchy.has_declare accepted d.name).1 known with same | known
    · exact (List.nodup_cons.1 declarable.apart).1 (List.mem_map.2 ⟨d, member, same.symm⟩)
    · rw [declarable.fresh d (List.mem_cons_of_mem _ member)] at known
      cases known
  known d member above super := by
    have has := Hierarchy.has_declare accepted above
    rcases declarable.known d (List.mem_cons_of_mem _ member) above super with
      known | ⟨e, among, rfl⟩
    · exact .inl (has.2 (.inr known))
    · rcases List.mem_cons.1 among with rfl | among
      · exact .inl (has.2 (.inl rfl))
      · exact .inr ⟨e, among, rfl⟩
  isAbstract d member above super := by
    obtain ⟨older, newer⟩ := declarable.isAbstract d (List.mem_cons_of_mem _ member) above super
    refine ⟨fun known => ?_, fun e among => newer e (List.mem_cons_of_mem _ among)⟩
    rw [Hierarchy.isAbstract_declare accepted]
    split
    case isTrue same => exact newer c List.mem_cons_self same
    case isFalse other =>
      exact older (((Hierarchy.has_declare accepted above).1 known).resolve_left other)
  acyclic name cycle := declarable.acyclic name (extends_mono (List.subset_cons_self c rest) cycle)

/-- If the classes that are left can be declared behind one that is declared, then all of them can
    be in front of it. -/
theorem Declarable.before (declarable : Declarable next rest) : Declarable h (c :: rest) where
  apart := by
    refine List.nodup_cons.2 ⟨fun member => ?_, declarable.apart⟩
    obtain ⟨d, among, same⟩ := List.mem_map.1 member
    have known := (Hierarchy.has_declare accepted d.name).2 (.inl same.symm)
    rw [declarable.fresh d among] at known
    cases known
  fresh := fresh_of_declare accepted declarable.fresh
  known := by
    refine List.forall_mem_cons.2 ⟨fun above super => .inl ?_, fun d member above super => ?_⟩
    · rw [← above_of_superName? super]
      exact Hierarchy.has_of_isAbstract (facts_of_declare accepted).2
    · rcases declarable.known d member above super with known | ⟨e, among, same⟩
      · rcases (Hierarchy.has_declare accepted above).1 known with same | known
        · exact .inr ⟨c, List.mem_cons_self, same⟩
        · exact .inl known
      · exact .inr ⟨e, List.mem_cons_of_mem _ among, same⟩
  isAbstract := by
    have fresh := fresh_of_declare accepted declarable.fresh
    refine List.forall_mem_cons.2 ⟨fun above super => ?_, fun d member above super => ?_⟩
    · have isAbstract := (facts_of_declare accepted).2
      rw [above_of_superName? super] at isAbstract
      refine ⟨fun _ => isAbstract, fun d member same => ?_⟩
      have known := Hierarchy.has_of_isAbstract isAbstract
      rw [← same, fresh d member] at known
      cases known
    · obtain ⟨older, newer⟩ := declarable.isAbstract d member above super
      have stays := Hierarchy.isAbstract_declare accepted above
      refine ⟨fun known => ?_, List.forall_mem_cons.2 ⟨fun same => ?_, newer⟩⟩
      · have different : (c.toDecl file).name ≠ above := by
          intro same
          rw [← same, name_toDecl, fresh c List.mem_cons_self] at known
          cases known
        rw [if_neg different] at stays
        exact stays.symm.trans (older ((Hierarchy.has_declare accepted above).2 (.inr known)))
      · rw [if_pos (show (c.toDecl file).name = above from same)] at stays
        exact stays.symm.trans (older ((Hierarchy.has_declare accepted above).2 (.inl same)))
  acyclic name cycle := by
    obtain ⟨_, ⟨d, member, named, -⟩, -⟩ := Relation.TransGen.head'_iff.1 cycle
    have fresh := fresh_of_declare accepted declarable.fresh
    exact declarable.acyclic name (extends_of_cons accepted fresh cycle ⟨d, member, named⟩)

end Step

/-- While classes can be declared, the supertype of one of them is declared already. -/
theorem Declarable.exists_ready (declarable : Declarable h classes) (nonempty : classes ≠ []) :
    ∃ c ∈ classes, ∀ above ∈ c.superName?, h.has above = true := by
  by_contra none
  -- otherwise every class extends another one, which the finite order of their names does not allow
  have next : ∀ c ∈ classes, ∃ d ∈ classes, Extends classes c.name d.name := by
    intro c member
    have waiting : ¬ ∀ above ∈ c.superName?, h.has above = true :=
      fun ready => none ⟨c, member, ready⟩
    obtain ⟨above, super, unknown⟩ := not_forall₂.1 waiting
    obtain ⟨d, among, rfl⟩ := (declarable.known c member above super).resolve_left unknown
    exact ⟨d, among, c, member, rfl, super⟩
  have order : IsStrictOrder String (Function.swap (Relation.TransGen (Extends classes))) :=
    { irrefl := declarable.acyclic, trans := fun _ _ _ first second => second.trans first }
  have founded : {name | name ∈ classes.map (·.name)}.WellFoundedOn
      (Function.swap (Relation.TransGen (Extends classes))) :=
    (List.finite_toSet _).wellFoundedOn
  obtain ⟨c, member⟩ := List.exists_mem_of_ne_nil classes nonempty
  obtain ⟨⟨top, inside⟩, -, last⟩ :=
    founded.has_min Set.univ ⟨⟨c.name, List.mem_map_of_mem member⟩, trivial⟩
  obtain ⟨d, among, rfl⟩ := List.mem_map.1 inside
  obtain ⟨e, further, edge⟩ := next d among
  exact last ⟨e.name, List.mem_map_of_mem further⟩ trivial (.single edge)

/-! ## Several classes -/

/-- Behind classes that were declared, the others can be declared if and only if all of them could
    be in front of them. -/
theorem declarable_append_iff
    (accepted : h.declareAll (front.map (ClassDecl.toDecl file)) = .ok next) :
    Declarable h (front ++ rest) ↔ Declarable next rest := by
  induction front generalizing h with
  | nil =>
      cases accepted
      rfl
  | cons c front ih =>
      obtain ⟨middle, first, others⟩ := Hierarchy.declareAll_cons accepted
      exact ⟨fun all => (ih others).1 (all.behind first),
        fun left => ((ih others).2 left).before first⟩

/-- Classes that are ready are declared. -/
theorem exists_declareAll (file : String) (root : h.isAbstract "Any" = true)
    (declarable : Declarable h (front ++ rest))
    (ready : ∀ c ∈ front, ∀ above ∈ c.superName?, h.has above = true) :
    ∃ next, h.declareAll (front.map (ClassDecl.toDecl file)) = .ok next := by
  induction front generalizing h with
  | nil => exact ⟨h, rfl⟩
  | cons c front ih =>
      obtain ⟨readyHere, ready⟩ := List.forall_mem_cons.1 ready
      have isAbstract : h.isAbstract c.above = true := by
        cases super : c.superName? with
        | none => rwa [ClassDecl.above, super]
        | some above =>
            rw [above_of_superName? super]
            exact (declarable.isAbstract c (by simp) above super).1 (readyHere above super)
      obtain ⟨middle, first⟩ := Hierarchy.exists_declare
        (show h.has (c.toDecl file).name = false from declarable.fresh c (by simp)) isAbstract
      have grown := fun name => Hierarchy.has_declare first name
      obtain ⟨next, others⟩ := ih (Hierarchy.isAbstract_of_declare first root)
        (declarable.behind first)
        (fun d member above super => (grown above).2 (.inr (ready d member above super)))
      refine ⟨next, ?_⟩
      rw [List.map_cons, Hierarchy.declareAll, List.foldlM_cons, first]
      exact others

/-- Every declared class stands behind its supertype. -/
theorem known_of_declareAll
    (accepted : h.declareAll ((front ++ c :: rest).map (ClassDecl.toDecl file)) = .ok next) :
    h.has c.above = true ∨ ∃ d ∈ front, d.name = c.above := by
  induction front generalizing h with
  | nil =>
      obtain ⟨middle, first, -⟩ := Hierarchy.declareAll_cons accepted
      exact .inl (Hierarchy.has_of_isAbstract (facts_of_declare first).2)
  | cons d front ih =>
      obtain ⟨middle, first, others⟩ := Hierarchy.declareAll_cons accepted
      rcases ih others with known | ⟨e, among, same⟩
      · rcases (Hierarchy.has_declare first _).1 known with same | known
        · exact .inr ⟨d, List.mem_cons_self, same⟩
        · exact .inl known
      · exact .inr ⟨e, List.mem_cons_of_mem _ among, same⟩

/-- Behind classes, their types stand below what they extend, and all others where they stood. -/
theorem parent?_of_declareAll
    (accepted : h.declareAll (classes.map (ClassDecl.toDecl file)) = .ok next) :
    (∀ c ∈ classes, next.parent? c.name = some c.above) ∧
      ∀ name, name ∉ classes.map (·.name) → next.parent? name = h.parent? name := by
  induction classes generalizing h with
  | nil =>
      cases accepted
      simp
  | cons c classes ih =>
      obtain ⟨middle, first, others⟩ := Hierarchy.declareAll_cons accepted
      obtain ⟨declared, old⟩ := ih others
      have here := Hierarchy.parent?_declare first
      refine ⟨List.forall_mem_cons.2 ⟨?_, declared⟩, fun name new => ?_⟩
      · obtain ⟨d, found⟩ :=
          Option.isSome_iff_exists.1 ((Hierarchy.has_declare first c.name).2 (.inl rfl))
        have super := here c.name
        rw [Hierarchy.parent?, found, name_toDecl, if_pos rfl] at super
        rw [Hierarchy.parent?, Hierarchy.find?_of_declareAll others found]
        exact super
      · rw [List.map_cons, List.mem_cons, not_or] at new
        rw [old name new.2, here, name_toDecl, if_neg (Ne.symm new.1)]

end Multimethod
