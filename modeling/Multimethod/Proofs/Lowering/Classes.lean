import Multimethod.Proofs.Lowering.Supertypes

/-!
# Classes in any order

The classes of a unit are declared in rounds. Those of the right form are declared as their types
are, so that all rounds together declare the types of the classes in some order, in which every
supertype comes first. Whether that succeeds does not depend on the order in which the classes
stand, and neither does what they stand below.
-/

namespace Multimethod.Lowering

open Surface

variable {file : String} {h next : Hierarchy} {c : ClassDecl} {classes : List ClassDecl}
  {pending : List ClassHead}

/-! ## Classes that wait -/

/-- Whether a class that waits to be declared has the form of a type. -/
structure ClassHead.WellShaped (head : ClassHead) : Prop where
  source : head.source.WellShaped
  above : head.above = head.source.superName?

theorem isReady_iff {head : ClassHead} (shaped : head.WellShaped) :
    head.isReady h = true ↔ ∀ above ∈ head.source.superName?, h.has above = true := by
  rw [ClassHead.isReady, shaped.above]
  cases head.source.superName? <;> simp

theorem classHead_of_wellShaped (s : Scope) (shaped : c.WellShaped) :
    classHead s c = .ok ⟨c, c.superName?⟩ := by
  unfold classHead ClassDecl.superName?
  cases super : c.superclass with
  | none => rfl
  | some e =>
      obtain ⟨name, start, bare⟩ := shaped.superclass e super
      rw [Option.map_some, bare]

theorem heads_of_wellShaped (s : Scope) (shaped : ∀ c ∈ classes, c.WellShaped) :
    classes.mapM (classHead s) = .ok (classes.map fun c => ⟨c, c.superName?⟩) := by
  induction classes with
  | nil => rfl
  | cons c classes ih =>
      obtain ⟨here, there⟩ := List.forall_mem_cons.1 shaped
      rw [List.mapM_cons, classHead_of_wellShaped s here, ih there]
      rfl

theorem lowerTypeParams_of_noBounds (s : Scope) {params : List Surface.TypeParamDecl}
    (noBounds : ∀ p ∈ params, p.bound = none) :
    lowerTypeParams s params =
      .ok (params.map fun p => ⟨p.name, if p.isOut then .covariant else .invariant, .any⟩) := by
  induction params generalizing s with
  | nil => rfl
  | cons p params ih =>
      obtain ⟨here, there⟩ := List.forall_mem_cons.1 noBounds
      rw [lowerTypeParams, here]
      change (do
        let others ← lowerTypeParams _ params
        return _ :: others : Checked _) = _
      rw [ih _ there]
      rfl

/-- A class of the right form is declared as its type is. -/
theorem declareClass_eq {head : ClassHead} (shaped : head.WellShaped) :
    declareClass file h head = (do
      return (⟨head.source, head.source.toDecl file⟩, ← h.declare (head.source.toDecl file))) := by
  obtain ⟨⟨-, noSuperArgs, noParams, noMembers, noBounds⟩, above⟩ := shaped
  have params : (head.source.isAbstract && !head.source.typeParams.isEmpty) = false := by
    cases isAbstract : head.source.isAbstract with
    | false => rfl
    | true => simp [noParams isAbstract]
  have members : (head.source.isAbstract && !head.source.members.isEmpty) = false := by
    cases isAbstract : head.source.isAbstract with
    | false => rfl
    | true => simp [noMembers isAbstract]
  unfold declareClass
  simp only [noSuperArgs, params, members, above, lowerTypeParams_of_noBounds _ noBounds,
    Bool.false_eq_true, if_false]
  rfl

/-- Classes in order are declared as their types are. -/
theorem declareInOrder_eq {heads : List ClassHead} (shaped : ∀ head ∈ heads, head.WellShaped) :
    declareInOrder file h heads = (do
      return (heads.map fun head => ⟨head.source, head.source.toDecl file⟩,
        ← h.declareAll ((heads.map (·.source)).map (ClassDecl.toDecl file)))) := by
  induction heads generalizing h with
  | nil => rfl
  | cons head heads ih =>
      obtain ⟨here, there⟩ := List.forall_mem_cons.1 shaped
      rw [declareInOrder, declareClass_eq here, List.map_cons, List.map_cons,
        Hierarchy.declareAll, List.foldlM_cons]
      cases first : h.declare (head.source.toDecl file) with
      | error fault => rfl
      | ok middle =>
          simp only [bind, Except.bind, pure, Except.pure, ih there, Hierarchy.declareAll]
          generalize (heads.map (·.source)).map (ClassDecl.toDecl file) = decls
          cases decls.foldlM Hierarchy.declare middle <;> rfl

/-! ## Rounds -/

/-- The classes that one round declares, and those that are left for the next ones. -/
theorem perm_ready (h : Hierarchy) (pending : List ClassHead) :
    ((pending.filter (·.isReady h)).map (·.source) ++
      (pending.filter fun head => !head.isReady h).map (·.source)).Perm
        (pending.map (·.source)) := by
  rw [← List.map_append]
  exact (List.filter_append_perm _ pending).map _

/-- What rounds declare are the classes in some order, one after the other. -/
theorem exists_order_of_declareRounds {declared : List DeclaredClass}
    (shaped : ∀ head ∈ pending, head.WellShaped)
    (accepted : declareRounds file h pending = .ok (declared, next)) :
    ∃ order : List ClassDecl, order.Perm (pending.map (·.source)) ∧
      declared = order.map (fun c => ⟨c, c.toDecl file⟩) ∧
      h.declareAll (order.map (ClassDecl.toDecl file)) = .ok next := by
  fun_induction declareRounds file h pending generalizing declared next with
  | case1 =>
      cases accepted
      exact ⟨[], .nil, rfl, rfl⟩
  | case2 h c cs waiting progress =>
      rename_i ih
      have inside : ∀ p : ClassHead → Bool, ∀ head ∈ (c :: cs).filter p, head.WellShaped :=
        fun _ head member => shaped head (List.mem_filter.1 member).1
      obtain ⟨⟨first, middle⟩, here, accepted⟩ := bind_eq_ok accepted
      obtain ⟨⟨others, h'⟩, there, accepted⟩ := bind_eq_ok accepted
      cases accepted
      rw [declareInOrder_eq (inside _)] at here
      obtain ⟨_, here, done⟩ := bind_eq_ok here
      cases done
      obtain ⟨order, same, rfl, done⟩ := ih _ (inside _) there
      refine ⟨((c :: cs).filter (·.isReady h)).map (·.source) ++ order,
        (same.append_left _).trans (perm_ready h _), by simp, ?_⟩
      rw [List.map_append]
      exact Hierarchy.declareAll_append here done
  | case3 h c cs waiting stuck =>
      rename_i ih
      obtain ⟨shapedHere, shapedThere⟩ := List.forall_mem_cons.1 shaped
      obtain ⟨⟨first, middle⟩, here, accepted⟩ := bind_eq_ok accepted
      obtain ⟨⟨others, h'⟩, there, accepted⟩ := bind_eq_ok accepted
      cases accepted
      rw [declareClass_eq shapedHere] at here
      obtain ⟨_, here, done⟩ := bind_eq_ok here
      cases done
      obtain ⟨order, same, rfl, done⟩ := ih _ shapedThere there
      exact ⟨c.source :: order, same.cons _, rfl,
        Hierarchy.declareAll_append (Hierarchy.declareAll_singleton here) done⟩

/-- Rounds come to an end if the classes can be declared: in each of them some class is ready. -/
theorem exists_declareRounds (shaped : ∀ head ∈ pending, head.WellShaped) (built : h.Declared)
    (declarable : Declarable h (pending.map (·.source))) :
    ∃ result, declareRounds file h pending = .ok result := by
  fun_induction declareRounds file h pending with
  | case1 => exact ⟨_, rfl⟩
  | case2 h c cs waiting progress =>
      rename_i ih
      have inside : ∀ p : ClassHead → Bool, ∀ head ∈ (c :: cs).filter p, head.WellShaped :=
        fun _ head member => shaped head (List.mem_filter.1 member).1
      have divided := declarable.perm (perm_ready h (c :: cs)).symm
      obtain ⟨middle, here⟩ := exists_declareAll file built.isAbstract_any divided (by
        refine List.forall_mem_map.2 fun head member => ?_
        exact (isReady_iff (inside _ head member)).1 (List.mem_filter.1 member).2)
      obtain ⟨⟨others, h'⟩, there⟩ := ih middle (inside _) (built.declareAll _ here)
        ((declarable_append_iff here).1 divided)
      rw [declareInOrder_eq (inside _), here]
      simp only [bind, Except.bind, pure, Except.pure]
      rw [there]
      exact ⟨_, rfl⟩
  | case3 h c cs waiting stuck =>
      exfalso
      obtain ⟨source, member, ready⟩ := declarable.exists_ready (by simp)
      obtain ⟨head, among, rfl⟩ := List.mem_map.1 member
      refine stuck (List.length_filter_lt_length_iff_exists.2 ⟨head, among, ?_⟩)
      simp [(isReady_iff (shaped head among)).2 ready]

/-! ## Faults -/

/-- Whether a computation fails for its input only. -/
def FailsOnInput {α : Type} (result : Checked α) : Prop :=
  ∀ fault, result = .error fault → ∃ cause loc, fault = .malformed cause loc

section Faults

variable {α β : Type}

theorem FailsOnInput.ok (x : α) : FailsOnInput (.ok x : Checked α) := by
  rintro _ ⟨⟩

theorem FailsOnInput.malformed (cause : Cause) (loc : Option Location) :
    FailsOnInput (.error (.malformed cause loc) : Checked α) := by
  rintro _ ⟨⟩
  exact ⟨cause, loc, rfl⟩

theorem FailsOnInput.bind {first : Checked α} {next : α → Checked β} (here : FailsOnInput first)
    (there : ∀ x, FailsOnInput (next x)) : FailsOnInput (first >>= next) := by
  cases first with
  | error fault =>
      rintro _ ⟨⟩
      exact here fault rfl
  | ok x => exact there x

end Faults

theorem failsOnInput_declare (h : Hierarchy) (decl : TypeDecl) : FailsOnInput (h.declare decl) := by
  unfold Hierarchy.declare
  dsimp only
  split
  · exact .malformed _ _
  · split
    · exact .malformed _ _
    · split
      · exact .ok _
      · exact .malformed _ _

theorem failsOnInput_declareAll (h : Hierarchy) (decls : List TypeDecl) :
    FailsOnInput (h.declareAll decls) := by
  induction decls generalizing h with
  | nil => exact .ok h
  | cons decl decls ih =>
      rw [Hierarchy.declareAll, List.foldlM_cons]
      exact .bind (failsOnInput_declare h decl) fun next => ih next

theorem failsOnInput_declareRounds (shaped : ∀ head ∈ pending, head.WellShaped) :
    FailsOnInput (declareRounds file h pending) := by
  fun_induction declareRounds file h pending with
  | case1 => exact .ok _
  | case2 h c cs waiting progress =>
      rename_i ih
      have inside : ∀ p : ClassHead → Bool, ∀ head ∈ (c :: cs).filter p, head.WellShaped :=
        fun _ head member => shaped head (List.mem_filter.1 member).1
      rw [declareInOrder_eq (inside _)]
      refine .bind (.bind (failsOnInput_declareAll h _) fun _ => .ok _) fun declared => ?_
      exact .bind (ih declared.2 (inside _)) fun _ => .ok _
  | case3 h c cs waiting stuck =>
      rename_i ih
      obtain ⟨here, there⟩ := List.forall_mem_cons.1 shaped
      rw [declareClass_eq here]
      refine .bind (.bind (failsOnInput_declare h _) fun _ => .ok _) fun declared => ?_
      exact .bind (ih declared.2 there) fun _ => .ok _

/-! ## All classes of a unit -/

theorem declareClasses_eq (file : String) (h : Hierarchy) (shaped : ∀ c ∈ classes, c.WellShaped) :
    ∃ pending : List ClassHead, (∀ head ∈ pending, head.WellShaped) ∧
      pending.map (·.source) = classes ∧
      declareClasses file h classes = declareRounds file h pending := by
  refine ⟨classes.map fun c => ⟨c, c.superName?⟩,
    List.forall_mem_map.2 fun c member => ⟨shaped c member, rfl⟩, ?_, ?_⟩
  · rw [List.map_map]
    exact List.map_id classes
  · rw [declareClasses, heads_of_wellShaped _ shaped]
    rfl

theorem exists_order_of_declareClasses {declared : List DeclaredClass}
    (shaped : ∀ c ∈ classes, c.WellShaped)
    (accepted : declareClasses file h classes = .ok (declared, next)) :
    ∃ order : List ClassDecl, order.Perm classes ∧ declared.map (·.source) = order ∧
      h.declareAll (order.map (ClassDecl.toDecl file)) = .ok next := by
  obtain ⟨pending, waiting, rfl, same⟩ := declareClasses_eq file h shaped
  obtain ⟨order, perm, rfl, all⟩ := exists_order_of_declareRounds waiting (same ▸ accepted)
  refine ⟨order, perm, ?_, all⟩
  rw [List.map_map]
  exact List.map_id order

theorem declareClasses_isOk_iff (file : String) (built : h.Declared)
    (shaped : ∀ c ∈ classes, c.WellShaped) :
    (∃ result, declareClasses file h classes = .ok result) ↔ Declarable h classes := by
  constructor
  · rintro ⟨⟨declared, next⟩, accepted⟩
    obtain ⟨order, perm, -, all⟩ := exists_order_of_declareClasses shaped accepted
    have declarable := (declarable_append_iff all).2 (declarable_nil next)
    rw [List.append_nil] at declarable
    exact declarable.perm perm
  · intro declarable
    obtain ⟨pending, waiting, rfl, same⟩ := declareClasses_eq file h shaped
    rw [same]
    exact exists_declareRounds waiting built declarable

/-- Classes can be declared if and only if their names are new, their supertypes are there and
    abstract, and no class stands above itself; every supertype is declared before the classes below
    it, and it does not matter in which order the classes stand. -/
theorem classes_declared_in_any_order (file : String) (built : h.Declared)
    (shaped : ∀ c ∈ classes, c.WellShaped) :
    ((∃ result, declareClasses file h classes = .ok result) ↔ Declarable h classes) ∧
      (∀ declared next, declareClasses file h classes = .ok (declared, next) →
        (declared.map (·.source)).Perm classes ∧
        (∀ front c back, declared.map (·.source) = front ++ c :: back →
          h.has c.above = true ∨ ∃ d ∈ front, d.name = c.above) ∧
        (∀ c ∈ classes, next.parent? c.name = some c.above) ∧
        ∀ others, others.Perm classes → ∃ declared' next',
          declareClasses file h others = .ok (declared', next') ∧
            ∀ name, next'.parent? name = next.parent? name) ∧
      ∀ fault, declareClasses file h classes = .error fault →
        ∃ cause loc, fault = .malformed cause loc := by
  have isOk := declareClasses_isOk_iff file built shaped
  refine ⟨isOk, fun declared next accepted => ?_, ?_⟩
  · obtain ⟨order, perm, rfl, all⟩ := exists_order_of_declareClasses shaped accepted
    obtain ⟨below, old⟩ := parent?_of_declareAll all
    have parents : ∀ c ∈ classes, next.parent? c.name = some c.above :=
      fun c member => below c (perm.mem_iff.2 member)
    refine ⟨perm, fun front c back same => ?_, parents, fun others same => ?_⟩
    · rw [same] at all
      exact known_of_declareAll all
    · have shaped' : ∀ c ∈ others, c.WellShaped := fun c member => shaped c (same.mem_iff.1 member)
      obtain ⟨⟨declared', next'⟩, accepted'⟩ :=
        (declareClasses_isOk_iff file built shaped').2
          ((isOk.1 ⟨_, accepted⟩).perm same.symm)
      obtain ⟨order', perm', -, all'⟩ := exists_order_of_declareClasses shaped' accepted'
      obtain ⟨below', old'⟩ := parent?_of_declareAll all'
      refine ⟨declared', next', accepted', fun name => ?_⟩
      have names := (perm'.trans (same.trans perm.symm)).map (·.name)
      by_cases here : name ∈ (declared.map (·.source)).map (·.name)
      · obtain ⟨c, member, rfl⟩ := List.mem_map.1 here
        rw [below c member, below' c ((perm'.trans (same.trans perm.symm)).mem_iff.2 member)]
      · rw [old name here, old' name (mt names.mem_iff.1 here)]
  · obtain ⟨pending, waiting, rfl, same⟩ := declareClasses_eq file h shaped
    rw [same]
    exact failsOnInput_declareRounds waiting

/-- A class whose superclass is a name. -/
def plainClass (name : String) (isAbstract : Bool) (superclass : Option String) : ClassDecl where
  name := name
  isAbstract := isAbstract
  typeParams := []
  superclass := superclass.map fun above => .name above .start
  hasSuperArgs := false
  members := []
  start := .start

theorem wellShaped_plainClass (name : String) (isAbstract : Bool) (superclass : Option String) :
    (plainClass name isAbstract superclass).WellShaped where
  superclass e here := by
    obtain ⟨above, -, rfl⟩ := Option.map_eq_some_iff.1 here
    exact ⟨above, .start, rfl⟩
  noSuperArgs := rfl
  noParams _ := rfl
  noMembers _ := rfl
  noBounds := by simp [plainClass]

/-- A square in front of the shapes that it belongs to. -/
def squareAndShape : List ClassDecl :=
  [plainClass "Square" false (some "Shape"), plainClass "Shape" true none]

theorem declarable_squareAndShape : Declarable .initial squareAndShape where
  apart := by decide
  fresh := by decide
  known := by decide
  isAbstract := by decide
  acyclic name cycle := by
    have edge : ∀ {name above}, Extends squareAndShape name above →
        name = "Square" ∧ above = "Shape" := by
      rintro name above ⟨c, member, rfl, super⟩
      rcases List.mem_cons.1 member with rfl | member
      · cases super
        exact ⟨rfl, rfl⟩
      · cases List.mem_singleton.1 member
        cases super
    obtain ⟨_, first, -⟩ := Relation.TransGen.head'_iff.1 cycle
    obtain ⟨_, -, last⟩ := Relation.TransGen.tail'_iff.1 cycle
    have same := (edge first).1.symm.trans (edge last).2
    exact absurd same (by decide)

theorem classes_declared_in_any_order_shapes :
    Hierarchy.initial.Declared ∧ (∀ c ∈ squareAndShape, c.WellShaped) ∧
      ∃ declared next, declareClasses "shapes" .initial squareAndShape = .ok (declared, next) ∧
        (declared.map (·.source)).Perm squareAndShape ∧
        next.parent? "Square" = some "Shape" ∧ next.parent? "Shape" = some "Any" := by
  have shaped : ∀ c ∈ squareAndShape, c.WellShaped := by
    simp [squareAndShape, wellShaped_plainClass]
  have general := classes_declared_in_any_order "shapes" .initial shaped
  obtain ⟨⟨declared, next⟩, accepted⟩ := general.1.2 declarable_squareAndShape
  obtain ⟨perm, -, parents, -⟩ := general.2.1 declared next accepted
  exact ⟨.initial, shaped, declared, next, accepted, perm,
    parents (plainClass "Square" false (some "Shape")) (by simp [squareAndShape]),
    parents (plainClass "Shape" true none) (by simp [squareAndShape])⟩

end Multimethod.Lowering
