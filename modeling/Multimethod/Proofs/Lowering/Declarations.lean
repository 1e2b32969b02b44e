import Multimethod.Lowering.Compile
import Multimethod.Proofs.Hierarchy.Ancestry
import Multimethod.Proofs.Lowering.Literals
import Multimethod.Proofs.Ty.Identity

/-!
# The hierarchy of a compiled unit

The classes of a unit are declared one after the other on top of the prelude, in whatever order
lets every supertype come first, and get their fields afterwards. What comes out is a hierarchy
that declarations build, in which the prelude keeps its declarations.
-/

namespace Multimethod

/-! ## Declarations that stay -/

namespace Hierarchy

variable {h next : Hierarchy} {decl d : TypeDecl} {name : String}

theorem find?_declare (accepted : h.declare decl = .ok next) (name : String) :
    next.find? name =
      if decl.name = name then some { decl with supertype := some (decl.supertype.getD "Any") }
      else h.find? name := by
  obtain ⟨-, -, -, -, rfl⟩ := declare_eq_ok accepted
  by_cases same : decl.name = name
  · simp [find?, same]
  · simp [find?, same]

/-- What is declared stays declared. -/
theorem find?_of_declare (accepted : h.declare decl = .ok next) (found : h.find? name = some d) :
    next.find? name = some d := by
  have fresh := (declare_eq_ok accepted).1
  have different : decl.name ≠ name := by
    rintro rfl
    rw [fresh] at found
    cases found
  rw [find?_declare accepted, if_neg different]
  exact found

theorem declareAll_cons {decls : List TypeDecl}
    (accepted : h.declareAll (decl :: decls) = .ok next) :
    ∃ middle, h.declare decl = .ok middle ∧ middle.declareAll decls = .ok next := by
  rw [declareAll, List.foldlM_cons] at accepted
  cases first : h.declare decl with
  | error fault =>
      rw [first] at accepted
      cases accepted
  | ok middle =>
      rw [first] at accepted
      exact ⟨middle, rfl, accepted⟩

theorem declareAll_append {middle : Hierarchy} {first second : List TypeDecl}
    (here : h.declareAll first = .ok middle) (there : middle.declareAll second = .ok next) :
    h.declareAll (first ++ second) = .ok next := by
  rw [declareAll, List.foldlM_append]
  change (h.declareAll first >>= fun h => h.declareAll second) = .ok next
  rw [here]
  exact there

theorem declareAll_singleton (accepted : h.declare decl = .ok next) :
    h.declareAll [decl] = .ok next := by
  rw [declareAll, List.foldlM_cons, accepted]
  rfl

theorem find?_of_declareAll {decls : List TypeDecl} (accepted : h.declareAll decls = .ok next)
    (found : h.find? name = some d) : next.find? name = some d := by
  induction decls generalizing h with
  | nil =>
      cases accepted
      exact found
  | cons decl decls ih =>
      obtain ⟨middle, first, rest⟩ := declareAll_cons accepted
      exact ih rest (find?_of_declare first found)

/-- Declared names are new. -/
theorem fresh_of_declareAll {decls : List TypeDecl} (accepted : h.declareAll decls = .ok next)
    (member : decl ∈ decls) : h.find? decl.name = none := by
  induction decls generalizing h with
  | nil => cases member
  | cons first decls ih =>
      obtain ⟨middle, here, rest⟩ := declareAll_cons accepted
      rcases List.mem_cons.1 member with rfl | member
      · exact (declare_eq_ok here).1
      · have fresh := ih rest member
        cases found : h.find? decl.name with
        | none => rfl
        | some d =>
            rw [find?_of_declare here found] at fresh
            cases fresh

theorem Declared.find?_any (built : h.Declared) : (h.find? "Any").isSome = true := by
  induction built with
  | initial => rfl
  | declare built accepted ih =>
      obtain ⟨d, found⟩ := Option.isSome_iff_exists.1 ih
      rw [find?_of_declare accepted found]
      rfl

/-! ## Fields -/

/-- What a declaration becomes when the fields of `decl` are known. -/
def fieldsFrom (decl d : TypeDecl) : TypeDecl :=
  if d.name = decl.name then { d with fields := decl.fields } else d

theorem name_fieldsFrom (decl d : TypeDecl) : (fieldsFrom decl d).name = d.name := by
  unfold fieldsFrom
  split <;> rfl

theorem isAbstract_fieldsFrom (decl d : TypeDecl) :
    (fieldsFrom decl d).isAbstract = d.isAbstract := by
  unfold fieldsFrom
  split <;> rfl

theorem params_fieldsFrom (decl d : TypeDecl) : (fieldsFrom decl d).params = d.params := by
  unfold fieldsFrom
  split <;> rfl

theorem find?_withFieldsOf (h : Hierarchy) (decl : TypeDecl) (name : String) :
    (h.withFieldsOf decl).find? name = (h.find? name).map (fieldsFrom decl) := by
  unfold find? withFieldsOf
  rw [List.find?_map]
  have names : (fun d : TypeDecl => d.name == name) ∘ (fieldsFrom decl) =
      fun d => d.name == name := by
    funext d
    exact congrArg (· == name) (name_fieldsFrom decl d)
  exact congrArg (fun p => (h.decls.find? p).map (fieldsFrom decl)) names

theorem paramsOf_withFieldsOf (h : Hierarchy) (decl : TypeDecl) (name : String) :
    (h.withFieldsOf decl).paramsOf name = h.paramsOf name := by
  unfold paramsOf
  rw [find?_withFieldsOf]
  cases h.find? name with
  | none => rfl
  | some d => exact params_fieldsFrom decl d

/-- A declaration is accepted with any fields, also when other fields have changed. -/
theorem declare_withFieldsOf (accepted : h.declare d = .ok next) (decl : TypeDecl) :
    (h.withFieldsOf decl).declare (fieldsFrom decl d) = .ok (next.withFieldsOf decl) := by
  obtain ⟨fresh, parent, found, isAbstract, rfl⟩ := declare_eq_ok accepted
  have supertype : (fieldsFrom decl d).supertype = d.supertype := by
    unfold fieldsFrom
    split <;> rfl
  have absent : (h.withFieldsOf decl).has (fieldsFrom decl d).name = false := by
    rw [has, name_fieldsFrom, find?_withFieldsOf, fresh]
    rfl
  have present : (h.withFieldsOf decl).find? (d.supertype.getD "Any") =
      some (fieldsFrom decl parent) := by
    rw [find?_withFieldsOf, found]
    rfl
  unfold declare
  simp only [absent, supertype, present, isAbstract_fieldsFrom, isAbstract, Bool.false_eq_true,
    if_false, if_true]
  unfold withFieldsOf fieldsFrom
  simp only [List.map_cons]
  split <;> rfl

theorem Declared.withFieldsOf (built : h.Declared) (other : decl.name ≠ "Any") :
    (h.withFieldsOf decl).Declared := by
  induction built with
  | initial =>
      have same : Hierarchy.initial.withFieldsOf decl = Hierarchy.initial := by
        simp [Hierarchy.initial, Hierarchy.withFieldsOf, TypeDecl.any, Ne.symm other]
      rw [same]
      exact .initial
  | declare built accepted ih => exact ih.declare (declare_withFieldsOf accepted decl)

theorem Declared.foldl_withFieldsOf {decls : List TypeDecl} (built : h.Declared)
    (other : ∀ decl ∈ decls, decl.name ≠ "Any") :
    (decls.foldl Hierarchy.withFieldsOf h).Declared := by
  induction decls generalizing h with
  | nil => exact built
  | cons decl decls ih =>
      rw [List.forall_mem_cons] at other
      exact ih (built.withFieldsOf other.1) other.2

theorem paramsOf_foldl_withFieldsOf (h : Hierarchy) (decls : List TypeDecl) (name : String) :
    (decls.foldl Hierarchy.withFieldsOf h).paramsOf name = h.paramsOf name := by
  induction decls generalizing h with
  | nil => rfl
  | cons decl decls ih => rw [List.foldl_cons, ih, paramsOf_withFieldsOf]

end Hierarchy

/-! ## Classes -/

namespace Lowering

theorem bind_eq_ok {α β : Type} {first : Checked α} {next : α → Checked β} {y : β}
    (done : (first >>= next) = .ok y) : ∃ x, first = .ok x ∧ next x = .ok y := by
  cases value : first with
  | error fault =>
      rw [value] at done
      cases done
  | ok x =>
      rw [value] at done
      exact ⟨x, rfl, done⟩

section Lists

variable {α β : Type} {f : α → Checked β} {items : List α} {results : List β}

/-- What comes of a list item by item comes of one of the items. -/
theorem exists_of_mem_mapM (accepted : items.mapM f = .ok results) {y : β}
    (member : y ∈ results) : ∃ x ∈ items, f x = .ok y := by
  induction items generalizing results with
  | nil =>
      cases accepted
      cases member
  | cons x items ih =>
      rw [List.mapM_cons] at accepted
      obtain ⟨first, here, accepted⟩ := bind_eq_ok accepted
      obtain ⟨others, there, accepted⟩ := bind_eq_ok accepted
      cases accepted
      rcases List.mem_cons.1 member with rfl | further
      · exact ⟨x, List.mem_cons_self, here⟩
      · obtain ⟨x, hx, same⟩ := ih there further
        exact ⟨x, List.mem_cons_of_mem _ hx, same⟩

theorem mem_of_mapM (accepted : items.mapM f = .ok results) {x : α} (member : x ∈ items) :
    ∃ y ∈ results, f x = .ok y := by
  induction items generalizing results with
  | nil => cases member
  | cons first items ih =>
      rw [List.mapM_cons] at accepted
      obtain ⟨y, here, accepted⟩ := bind_eq_ok accepted
      obtain ⟨others, there, accepted⟩ := bind_eq_ok accepted
      cases accepted
      rcases List.mem_cons.1 member with rfl | further
      · exact ⟨y, List.mem_cons_self, here⟩
      · obtain ⟨y, hy, same⟩ := ih there further
        exact ⟨y, List.mem_cons_of_mem _ hy, same⟩

end Lists

variable {file : String} {h next : Hierarchy}

theorem declareClass_eq_ok {c : ClassHead} {declared : DeclaredClass}
    (accepted : declareClass file h c = .ok (declared, next)) :
    h.declare declared.decl = .ok next := by
  unfold declareClass at accepted
  dsimp only at accepted
  split at accepted
  · cases accepted
  · split at accepted
    · cases accepted
    · split at accepted
      · cases accepted
      · obtain ⟨params, -, accepted⟩ := bind_eq_ok accepted
        obtain ⟨h', here, accepted⟩ := bind_eq_ok accepted
        cases accepted
        exact here

theorem declareInOrder_eq_ok {cs : List ClassHead} {declared : List DeclaredClass}
    (accepted : declareInOrder file h cs = .ok (declared, next)) :
    h.declareAll (declared.map (·.decl)) = .ok next := by
  induction cs generalizing h declared with
  | nil =>
      cases accepted
      rfl
  | cons c cs ih =>
      obtain ⟨⟨first, middle⟩, here, accepted⟩ := bind_eq_ok accepted
      obtain ⟨⟨others, h'⟩, there, accepted⟩ := bind_eq_ok accepted
      cases accepted
      exact Hierarchy.declareAll_append
        (Hierarchy.declareAll_singleton (declareClass_eq_ok here)) (ih there)

/-- Declaring classes in rounds is declaring their types one after the other. -/
theorem declareRounds_eq_ok {pending : List ClassHead} {declared : List DeclaredClass}
    (accepted : declareRounds file h pending = .ok (declared, next)) :
    h.declareAll (declared.map (·.decl)) = .ok next := by
  fun_induction declareRounds file h pending generalizing declared next with
  | case1 =>
      cases accepted
      rfl
  | case2 h c cs waiting progress =>
      rename_i ih
      obtain ⟨⟨first, middle⟩, here, accepted⟩ := bind_eq_ok accepted
      obtain ⟨⟨others, h'⟩, there, accepted⟩ := bind_eq_ok accepted
      cases accepted
      rw [List.map_append]
      exact Hierarchy.declareAll_append (declareInOrder_eq_ok here) (ih middle there)
  | case3 h c cs waiting stuck =>
      rename_i ih
      obtain ⟨⟨first, middle⟩, here, accepted⟩ := bind_eq_ok accepted
      obtain ⟨⟨others, h'⟩, there, accepted⟩ := bind_eq_ok accepted
      cases accepted
      exact Hierarchy.declareAll_append
        (Hierarchy.declareAll_singleton (declareClass_eq_ok here)) (ih middle there)

theorem completeClass_name {s : Scope} {c completed : DeclaredClass}
    (accepted : completeClass s c = .ok completed) : completed.decl.name = c.decl.name := by
  unfold completeClass at accepted
  split at accepted
  · cases accepted
    rfl
  · obtain ⟨fields, -, accepted⟩ := bind_eq_ok accepted
    cases accepted
    rfl

/-- Completing classes changes no name. -/
theorem name_of_mem_completed {s : Scope} {cs completed : List DeclaredClass}
    (accepted : cs.mapM (completeClass s) = .ok completed) {c' : DeclaredClass}
    (member : c' ∈ completed) : ∃ c ∈ cs, c'.decl.name = c.decl.name := by
  obtain ⟨c, hc, done⟩ := exists_of_mem_mapM accepted member
  exact ⟨c, hc, completeClass_name done⟩

/-- The steps in which a unit is lowered. -/
theorem lowerUnit_eq_ok {unit : Surface.SourceUnit} {program : Program}
    (accepted : lowerUnit file h unit = .ok (program, next)) :
    ∃ heads declared middle s classes functions,
      declareRounds file h heads = .ok (declared, middle) ∧
      (aliasesOf unit.items).foldlM addAlias (classScope file middle) = .ok s ∧
      declared.mapM (completeClass s) = .ok classes ∧
      (functionsOf unit.items).mapM (lowerFunction s) = .ok functions ∧
      (variablesOf unit.items).mapM (lowerGlobal s) = .ok program.globals ∧
      (expressionsOf unit.items).mapM (fun (e, start) => lowerEntry s e start) =
        .ok program.entries ∧
      program.types = classes.map (·.decl) ∧
      program.methods = classes.filterMap (constructor? s) ++ functions ∧
      next = program.types.foldl Hierarchy.withFieldsOf middle := by
  obtain ⟨-, -, accepted⟩ := bind_eq_ok accepted
  obtain ⟨⟨declared, middle⟩, here, accepted⟩ := bind_eq_ok accepted
  obtain ⟨s, aliases, accepted⟩ := bind_eq_ok accepted
  obtain ⟨classes, completed, accepted⟩ := bind_eq_ok accepted
  obtain ⟨functions, lowered, accepted⟩ := bind_eq_ok accepted
  obtain ⟨globals, bound, accepted⟩ := bind_eq_ok accepted
  obtain ⟨entries, called, accepted⟩ := bind_eq_ok accepted
  cases accepted
  obtain ⟨heads, -, here⟩ := bind_eq_ok here
  exact ⟨heads, declared, middle, s, classes, functions, here, aliases, completed, lowered, bound,
    called, rfl, rfl, rfl⟩

/-- The hierarchy of a unit consists of declarations on top of those it starts from, completed
    by the fields of its classes. -/
theorem lowerUnit_hierarchy {unit : Surface.SourceUnit} {program : Program}
    (accepted : lowerUnit file h unit = .ok (program, next)) :
    ∃ (declared : List DeclaredClass) (middle : Hierarchy),
      h.declareAll (declared.map (·.decl)) = .ok middle ∧
      (∀ decl ∈ program.types, ∃ c ∈ declared, decl.name = c.decl.name) ∧
      next = program.types.foldl Hierarchy.withFieldsOf middle := by
  obtain ⟨heads, declared, middle, s, classes, functions, here, -, completed, -, -, -, types, -,
    rfl⟩ := lowerUnit_eq_ok accepted
  refine ⟨declared, middle, declareRounds_eq_ok here, ?_, rfl⟩
  rw [types]
  intro decl member
  obtain ⟨c, hc, rfl⟩ := List.mem_map.1 member
  exact name_of_mem_completed completed hc

end Lowering

/-! ## The prelude -/

/-- The prelude declares the types of literals, concrete and without parameters. -/
theorem Prelude.find?_literal {base : Hierarchy} (prelude : Prelude.hierarchy = .ok base)
    {t : Ty} (literal : t ∈ Ty.literals) :
    ∃ d, base.find? t.word = some d ∧ d.isAbstract = false ∧ d.params = [] := by
  have computed : (match Prelude.hierarchy with
      | .ok base => Ty.literals.all fun t =>
          (base.find? t.word).any fun d => !d.isAbstract && d.params.isEmpty
      | .error _ => false) = true := by decide +kernel
  rw [prelude] at computed
  have known := List.all_eq_true.1 computed t literal
  cases found : base.find? t.word with
  | none =>
      rw [found] at known
      cases known
  | some d =>
      rw [found] at known
      exact ⟨d, rfl, by simpa using known⟩

/-- The builtin types have no fields, and their parameters no bounds. -/
theorem Prelude.decls_plain {base : Hierarchy} (prelude : Prelude.hierarchy = .ok base) :
    ∀ d ∈ base.decls, d.fields = none ∧ ∀ param ∈ d.params, param.bound = .any := by
  have computed : (match Prelude.hierarchy with
      | .ok base => base.decls.all fun d =>
          d.fields.isNone && d.params.all (·.bound.isAny)
      | .error _ => false) = true := by decide +kernel
  rw [prelude] at computed
  have top : ∀ t : Ty, t.isAny = true ↔ t = .any := fun t => by cases t <;> simp [Ty.isAny]
  simpa [top] using computed

/-- A compiled unit is lowered on top of the builtin types. -/
theorem compile_eq_ok {text file : String} {unit : CompiledUnit}
    (compiled : compile text file = .ok unit) :
    ∃ source base program h, Prelude.hierarchy = .ok base ∧ base.Declared ∧
      Lowering.lowerUnit file base source = .ok (program, h) ∧
      unit = ⟨program, h, .ofMethods (Prelude.builtin.methods ++ program.methods)⟩ := by
  obtain ⟨source, -, compiled⟩ := Lowering.bind_eq_ok compiled
  obtain ⟨base, prelude, compiled⟩ := Lowering.bind_eq_ok compiled
  obtain ⟨⟨program, h⟩, lowered, compiled⟩ := Lowering.bind_eq_ok compiled
  cases compiled
  exact ⟨source, base, program, h, prelude, .declareAll _ .initial prelude, lowered, rfl⟩

/-- The hierarchy of a compiled unit is built by declarations, and the types of literals have no
    parameters in it. -/
theorem declared_of_compile {text file : String} {unit : CompiledUnit}
    (compiled : compile text file = .ok unit) :
    unit.hierarchy.Declared ∧ unit.hierarchy.PlainLiterals := by
  obtain ⟨source, base, program, h, prelude, built, lowered, rfl⟩ := compile_eq_ok compiled
  obtain ⟨declared, middle, accepted, names, rfl⟩ := Lowering.lowerUnit_hierarchy lowered
  have grown : middle.Declared := built.declareAll _ accepted
  refine ⟨grown.foldl_withFieldsOf fun decl member top => ?_, fun t literal => ?_⟩
  · obtain ⟨c, hc, same⟩ := names decl member
    have fresh := Hierarchy.fresh_of_declareAll accepted (List.mem_map.2 ⟨c, hc, rfl⟩)
    rw [← same, top] at fresh
    have root := built.find?_any
    rw [fresh] at root
    cases root
  · obtain ⟨d, found, -, plain⟩ := Prelude.find?_literal prelude literal
    dsimp only
    rw [Hierarchy.paramsOf_foldl_withFieldsOf, Hierarchy.paramsOf,
      Hierarchy.find?_of_declareAll accepted found]
    exact plain

end Multimethod
