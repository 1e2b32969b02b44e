import Multimethod.Proofs.Inference.KindsOfPrograms
import Multimethod.Proofs.Lowering.Units
import Multimethod.Proofs.Ty.Admitted

/-!
# The types of an accepted unit

Whatever a unit names that is accepted is well-formed in the hierarchy of the compiled unit, though
it was read while that hierarchy was still growing: declared types keep their kind and their
parameters.
-/

namespace Multimethod

namespace Hierarchy

variable {h next last : Hierarchy} {decl : TypeDecl} {decls : List TypeDecl}

/-! ## Growing hierarchies -/

/-- Whether what is declared stays declared, of the same kind and with the same parameters. -/
def Kept (h next : Hierarchy) : Prop :=
  ∀ name d, h.find? name = some d →
    ∃ d', next.find? name = some d' ∧ d'.isAbstract = d.isAbstract ∧ d'.params = d.params

theorem Kept.refl (h : Hierarchy) : h.Kept h :=
  fun _ d found => ⟨d, found, rfl, rfl⟩

theorem Kept.trans (first : h.Kept next) (second : next.Kept last) : h.Kept last := by
  intro name d found
  obtain ⟨d', found', kind, params⟩ := first name d found
  obtain ⟨d'', found'', kind', params'⟩ := second name d' found'
  exact ⟨d'', found'', kind'.trans kind, params'.trans params⟩

theorem kept_of_declareAll (accepted : h.declareAll decls = .ok next) : h.Kept next :=
  fun _ d found => ⟨d, find?_of_declareAll accepted found, rfl, rfl⟩

theorem kept_withFieldsOf (h : Hierarchy) (decl : TypeDecl) : h.Kept (h.withFieldsOf decl) := by
  intro name d found
  refine ⟨fieldsFrom decl d, ?_, isAbstract_fieldsFrom decl d, params_fieldsFrom decl d⟩
  rw [find?_withFieldsOf, found]
  rfl

theorem kept_foldl_withFieldsOf (h : Hierarchy) (decls : List TypeDecl) :
    h.Kept (decls.foldl Hierarchy.withFieldsOf h) := by
  induction decls generalizing h with
  | nil => exact .refl h
  | cons decl decls ih => exact (kept_withFieldsOf h decl).trans (ih _)

end Hierarchy

/-! ## Declarations and methods -/

/-- Whether the bound of each parameter mentions only those in front of it. -/
def BoundsInFront (h : Hierarchy) (params : List TypeParam) : Prop :=
  ∀ before p behind, params = before ++ p :: behind →
    p.bound.Admitted h (before.map (·.name))

/-- Whether the types of a declaration are admitted: the fields mention the parameters only, with
    their bounds. -/
structure TypeDecl.Admitted (h : Hierarchy) (d : TypeDecl) : Prop where
  bounds : BoundsInFront h d.params
  fields : ∀ table ∈ d.fields, ∀ field ∈ table, field.2.Admitted h (d.params.map (·.name))
  own : Lowering.FieldsWithin d

/-- Whether the types of a method are admitted: all mention only the variables of the where-clause,
    and those of the parameters, the result and the body with their bounds. -/
structure Method.Admitted (h : Hierarchy) (m : Method) : Prop where
  types : ∀ t ∈ m.types, t.Admitted h (m.typeParams.map (·.name))
  own : Lowering.MethodWithin m

/-- Whether all types that a unit names are admitted. -/
structure CompiledUnit.Admitted (unit : CompiledUnit) : Prop where
  decls : ∀ d ∈ unit.hierarchy.decls, d.Admitted unit.hierarchy
  types : ∀ d ∈ unit.program.types, d.Admitted unit.hierarchy
  methods : ∀ m ∈ unit.program.methods, m.Admitted unit.hierarchy
  globals : ∀ binding ∈ unit.program.globals, binding.type.Admitted unit.hierarchy []
  entries : ∀ entry ∈ unit.program.entries, ∀ t ∈ Expr.allTypes entry.args,
    t.Admitted unit.hierarchy []

theorem BoundsInFront.mem {h : Hierarchy} {params : List TypeParam}
    (inFront : BoundsInFront h params) {p : TypeParam} (member : p ∈ params) :
    p.bound.Admitted h (params.map (·.name)) := by
  obtain ⟨before, behind, rfl⟩ := List.append_of_mem member
  exact (inFront before p behind rfl).mono fun name among => by
    rw [List.map_append]
    exact List.mem_append_left _ among

theorem TypeDecl.Admitted.of_eq {h : Hierarchy} {d d' : TypeDecl} (admitted : d'.Admitted h)
    (params : d.params = d'.params) (fields : d.fields = d'.fields) : d.Admitted h := by
  obtain ⟨bounds, of, own⟩ := admitted
  refine ⟨params ▸ bounds, ?_, ?_⟩
  · rw [params, fields]
    exact of
  · unfold Lowering.FieldsWithin
    rw [params, fields]
    exact own

theorem TypeDecl.admitted_of_plain {h : Hierarchy} {d : TypeDecl} (none : d.fields = none)
    (bounds : ∀ p ∈ d.params, p.bound = .any) : d.Admitted h := by
  refine ⟨fun before p behind split => ?_, by simp [none], by simp [Lowering.FieldsWithin, none]⟩
  rw [bounds p (by simp [split])]
  exact .any

namespace Lowering

variable {h next final : Hierarchy} {names more : List String} {s : Scope}

/-! ## Scopes -/

/-- Whether all types that the names of a scope stand for are admitted in a hierarchy that the one
    of the scope grows to. -/
structure Scope.Admitted (final : Hierarchy) (names : List String) (s : Scope) : Prop where
  kept : s.hierarchy.Kept final
  literals : ∀ t ∈ Ty.literals, t.Admitted final []
  aliases : ∀ entry ∈ s.aliases, entry.2.Admitted final []
  typeVars : ∀ entry ∈ s.typeVars, entry.1 ∈ names ∧ entry.2.Admitted final names

theorem Scope.Admitted.covered (admitted : s.Admitted final names) :
    s.Covered (Ty.Admitted final names) where
  any := .any
  bottom := .bottom
  literal t literal := (admitted.literals t literal).mono (List.nil_subset _)
  union _ := Ty.admitted_unionOf
  typeVar name bound found := by
    obtain ⟨among, bounded⟩ := admitted.typeVars _ (Assoc.mem_of_find? found)
    exact .typeVar among bounded
  aliased name type found :=
    (admitted.aliases _ (Assoc.mem_of_find? found)).mono (List.nil_subset _)
  declared name decl found isAbstract := by
    obtain ⟨decl', found', kind, -⟩ := admitted.kept name decl found
    have named : decl.name = name := by simpa using List.find?_some found
    rw [TypeDecl.toTy, isAbstract, named, if_pos rfl]
    split
    · exact .any
    · exact .abstract found' (kind.trans isAbstract)
  applied name decl args found isConcrete fits of := by
    obtain ⟨decl', found', kind, params⟩ := admitted.kept name decl found
    exact .concrete found' (kind.trans isConcrete) (params ▸ fits) of

/-- A type parameter is known behind it. -/
theorem Scope.Admitted.insert (admitted : s.Admitted final names) (name : String) {bound : Ty}
    (bounded : bound.Admitted final names) :
    (s.withTypeVars (s.typeVars.insert name bound)).Admitted final (names ++ [name]) where
  kept := admitted.kept
  literals := admitted.literals
  aliases := admitted.aliases
  typeVars := by
    rintro ⟨key, type⟩ member
    rcases Assoc.set_or_mem_of_mem_insert member with ⟨rfl, rfl⟩ | old
    · exact ⟨by simp, bounded.mono (List.subset_append_left _ _)⟩
    · obtain ⟨among, bounded⟩ := admitted.typeVars _ old
      exact ⟨List.mem_append_left _ among, bounded.mono (List.subset_append_left _ _)⟩

theorem bounds_of_lowerTypeParams (admitted : s.Admitted final names)
    {ps : List Surface.TypeParamDecl} {params : List TypeParam}
    (accepted : lowerTypeParams s ps = .ok params) {before behind : List TypeParam} {p : TypeParam}
    (split : params = before ++ p :: behind) :
    p.bound.Admitted final (names ++ before.map (·.name)) := by
  induction ps generalizing s names params before with
  | nil =>
      cases accepted
      simp at split
  | cons q ps ih =>
      obtain ⟨type, here, accepted⟩ := bind_eq_ok accepted
      obtain ⟨others, there, accepted⟩ := bind_eq_ok accepted
      have bounded : (type.getD .any).Admitted final names :=
        admitted.covered.getD (yields_lowerAscription admitted.covered _ type here)
      cases accepted
      cases before with
      | nil =>
          cases (List.cons.inj split).1
          simpa using bounded
      | cons first before =>
          obtain ⟨rfl, further⟩ := List.cons.inj split
          simpa using ih (admitted.insert _ bounded) there further

/-- The scope in which the type parameters of a function or a class are known. -/
theorem Scope.Admitted.withParams (admitted : s.Admitted final names) {params : List TypeParam}
    (inFront : BoundsInFront final params) :
    (s.withTypeVars (boundsOf params)).Admitted final (params.map (·.name)) where
  kept := admitted.kept
  literals := admitted.literals
  aliases := admitted.aliases
  typeVars := by
    rintro ⟨name, bound⟩ member
    obtain ⟨p, hp, rfl, rfl⟩ := mem_boundsOf member
    exact ⟨List.mem_map.2 ⟨p, hp, rfl⟩, inFront.mem hp⟩

/-! ## Units -/

theorem forall_mem_types {kind : Ty → Prop} {m : Method} (bounds : ∀ v ∈ m.typeParams, kind v.bound)
    (params : ∀ p ∈ m.params, kind p.type) (returns : ∀ t ∈ m.returns, kind t)
    (body : ∀ stmts ∈ m.body, StmtsOf kind stmts) : ∀ t ∈ m.types, kind t := by
  simp only [Method.types, List.forall_mem_append]
  refine ⟨⟨⟨?_, ?_⟩, ?_⟩, ?_⟩
  · exact List.forall_mem_map.2 bounds
  · exact List.forall_mem_map.2 params
  · simpa using returns
  · cases has : m.body with
    | none => simp
    | some stmts => exact body stmts has

theorem lowerTypeParams_of_declareClass {file : String} {c : ClassHead} {declared : DeclaredClass}
    (accepted : declareClass file h c = .ok (declared, next)) :
    ∃ source, lowerTypeParams (classScope file h) source = .ok declared.decl.params := by
  unfold declareClass at accepted
  dsimp only at accepted
  split at accepted
  · cases accepted
  · split at accepted
    · cases accepted
    · split at accepted
      · cases accepted
      · obtain ⟨params, lowered, accepted⟩ := bind_eq_ok accepted
        obtain ⟨h', -, accepted⟩ := bind_eq_ok accepted
        cases accepted
        exact ⟨_, lowered⟩

/-- The parameters of a declared class were read in a hierarchy on the way. -/
def ReadOnTheWay (file : String) (final : Hierarchy) (c : DeclaredClass) : Prop :=
  ∃ h source, h.Kept final ∧ lowerTypeParams (classScope file h) source = .ok c.decl.params

theorem readOnTheWay_of_declareClass {file : String} {c : ClassHead} {declared : DeclaredClass}
    (accepted : declareClass file h c = .ok (declared, next)) (kept : next.Kept final) :
    ReadOnTheWay file final declared := by
  obtain ⟨source, lowered⟩ := lowerTypeParams_of_declareClass accepted
  have grown := Hierarchy.kept_of_declareAll
    (Hierarchy.declareAll_singleton (declareClass_eq_ok accepted))
  exact ⟨h, source, grown.trans kept, lowered⟩

theorem readOnTheWay_of_declareInOrder {file : String} {cs : List ClassHead}
    {declared : List DeclaredClass} (accepted : declareInOrder file h cs = .ok (declared, next))
    (kept : next.Kept final) : ∀ c ∈ declared, ReadOnTheWay file final c := by
  induction cs generalizing h declared with
  | nil =>
      cases accepted
      simp
  | cons c cs ih =>
      obtain ⟨⟨first, middle⟩, here, accepted⟩ := bind_eq_ok accepted
      obtain ⟨⟨others, h'⟩, there, accepted⟩ := bind_eq_ok accepted
      cases accepted
      have grown := Hierarchy.kept_of_declareAll (declareInOrder_eq_ok there)
      exact List.forall_mem_cons.2
        ⟨readOnTheWay_of_declareClass here (grown.trans kept), ih there⟩

theorem readOnTheWay_of_declareRounds {file : String} {pending : List ClassHead}
    {declared : List DeclaredClass} (accepted : declareRounds file h pending = .ok (declared, next))
    (kept : next.Kept final) : ∀ c ∈ declared, ReadOnTheWay file final c := by
  fun_induction declareRounds file h pending generalizing declared next with
  | case1 =>
      cases accepted
      simp
  | case2 h c cs waiting progress =>
      rename_i ih
      obtain ⟨⟨first, middle⟩, here, accepted⟩ := bind_eq_ok accepted
      obtain ⟨⟨others, h'⟩, there, accepted⟩ := bind_eq_ok accepted
      cases accepted
      have grown := Hierarchy.kept_of_declareAll (declareRounds_eq_ok there)
      exact List.forall_mem_append.2
        ⟨readOnTheWay_of_declareInOrder here (grown.trans kept), ih middle there kept⟩
  | case3 h c cs waiting stuck =>
      rename_i ih
      obtain ⟨⟨first, middle⟩, here, accepted⟩ := bind_eq_ok accepted
      obtain ⟨⟨others, h'⟩, there, accepted⟩ := bind_eq_ok accepted
      cases accepted
      have grown := Hierarchy.kept_of_declareAll (declareRounds_eq_ok there)
      exact List.forall_mem_cons.2
        ⟨readOnTheWay_of_declareClass here (grown.trans kept), ih middle there kept⟩

theorem admitted_classScope (file : String) (kept : h.Kept final)
    (literals : ∀ t ∈ Ty.literals, t.Admitted final []) :
    (classScope file h).Admitted final [] where
  kept := kept
  literals := literals
  aliases := by simp [classScope]
  typeVars := by simp [classScope]

theorem boundsInFront_of_readOnTheWay {file : String} {c : DeclaredClass}
    (literals : ∀ t ∈ Ty.literals, t.Admitted final []) (read : ReadOnTheWay file final c) :
    BoundsInFront final c.decl.params := by
  obtain ⟨h, source, kept, lowered⟩ := read
  exact fun before p behind split =>
    bounds_of_lowerTypeParams (admitted_classScope file kept literals) lowered split

theorem admitted_of_completeClass (admitted : s.Admitted final []) (plain : PlainAliases s)
    {c c' : DeclaredClass} (inFront : BoundsInFront final c.decl.params)
    (accepted : completeClass s c = .ok c') : c'.decl.Admitted final := by
  obtain ⟨-, params, of⟩ := completeClass_eq_ok accepted
  refine ⟨params ▸ inFront, ?_, fieldsWithin_of_completeClass plain accepted⟩
  rw [params]
  exact of _ (admitted.withParams inFront).covered

theorem admitted_of_lowerFunction (admitted : s.Admitted final []) (plain : PlainAliases s)
    {f : Surface.FunctionDecl} {m : Method} (accepted : lowerFunction s f = .ok m) :
    m.Admitted final := by
  obtain ⟨params, lowered, clause, of⟩ := lowerFunction_eq_ok accepted
  have inside : (s.withTypeVars []).Admitted final [] :=
    { admitted with typeVars := by simp [Scope.withTypeVars] }
  have inFront : BoundsInFront final params :=
    fun before p behind split => bounds_of_lowerTypeParams inside lowered split
  have names : params.map (·.name) ⊆ m.typeParams.map (·.name) := by
    intro name among
    have key : name ∈ (boundsOf params).keys := Assoc.mem_keys_ofPairs.2 (by simpa using among)
    rw [clause, List.map_map]
    exact key
  have bounds : ∀ v ∈ m.typeParams, v.bound.Admitted final (params.map (·.name)) := by
    intro v member
    rw [clause] at member
    obtain ⟨⟨name, bound⟩, among, rfl⟩ := List.mem_map.1 member
    obtain ⟨p, hp, -, rfl⟩ := mem_boundsOf among
    exact inFront.mem hp
  obtain ⟨ofParams, ofReturns, ofBody⟩ := of _ (admitted.withParams inFront).covered
  exact ⟨fun t member => (forall_mem_types bounds ofParams ofReturns ofBody t member).mono names,
    methodWithin_of_lowerFunction plain accepted⟩

theorem admitted_of_constructor {c : DeclaredClass} {m : Method}
    (made : constructor? s c = some m) : m.Admitted final := by
  obtain ⟨params, clause, returns, body⟩ := constructor_eq_some made
  refine ⟨forall_mem_types (by simp [clause]) (fun p hp => ?_) (by simp [returns])
    (by simp [body]), methodWithin_of_constructor made⟩
  rw [params p hp]
  exact .any

theorem admitted_of_foldlM {aliases : List Surface.AliasDecl} {s' : Scope}
    (admitted : s.Admitted final []) (accepted : aliases.foldlM addAlias s = .ok s') :
    s'.Admitted final [] := by
  induction aliases generalizing s with
  | nil =>
      cases accepted
      exact admitted
  | cons a aliases ih =>
      rw [List.foldlM_cons] at accepted
      obtain ⟨next, here, accepted⟩ := bind_eq_ok accepted
      obtain ⟨type, lowered, rfl⟩ := addAlias_eq_ok here
      have ofType := yields_lowerType admitted.covered _ type lowered
      have grown : Scope.Admitted final [] { s with aliases := s.aliases.insert a.name type } :=
        { admitted with
          aliases := Assoc.forall_mem_insert (Ty.Admitted final []) admitted.aliases ofType }
      exact ih grown accepted

/-- The classes of a unit are admitted, if the scope is in which they are completed. -/
theorem admitted_of_completed {file : String} {heads : List ClassHead}
    {declared classes : List DeclaredClass} (admitted : s.Admitted final [])
    (plain : PlainAliases s) (accepted : declareRounds file h heads = .ok (declared, next))
    (kept : next.Kept final) (completed : declared.mapM (completeClass s) = .ok classes) :
    ∀ c ∈ classes, c.decl.Admitted final := by
  intro c' hc'
  obtain ⟨c, hc, done⟩ := exists_of_mem_mapM completed hc'
  have inFront := boundsInFront_of_readOnTheWay admitted.literals
    (readOnTheWay_of_declareRounds accepted kept c hc)
  exact admitted_of_completeClass admitted plain inFront done

end Lowering

/-- The prelude declares the types of literals. -/
theorem admitted_literal {base final : Hierarchy} (prelude : Prelude.hierarchy = .ok base)
    (kept : base.Kept final) : ∀ t ∈ Ty.literals, t.Admitted final [] := by
  intro t literal
  obtain ⟨d, found, isConcrete, -⟩ := Prelude.find?_literal prelude literal
  obtain ⟨d', found', kind, -⟩ := kept _ d found
  have alone : t = .concrete t.word [] := by
    simp only [Ty.literals, List.mem_cons, List.not_mem_nil, or_false] at literal
    rcases literal with rfl | rfl | rfl | rfl | rfl <;> rfl
  rw [alone]
  exact .concrete found' (kind.trans isConcrete) (.inl rfl) (by simp)

/-- The scope in which the classes of a unit are completed is admitted, and so are its classes. -/
theorem Lowering.admitted_of_lowered {file : String} {base middle : Hierarchy} {s : Scope}
    {heads : List ClassHead} {declared classes : List DeclaredClass}
    {aliases : List Surface.AliasDecl} (prelude : Prelude.hierarchy = .ok base)
    (here : declareRounds file base heads = .ok (declared, middle))
    (read : aliases.foldlM addAlias (classScope file middle) = .ok s)
    (completed : declared.mapM (completeClass s) = .ok classes) (decls : List TypeDecl) :
    (s.Admitted (decls.foldl Hierarchy.withFieldsOf middle) [] ∧ PlainAliases s) ∧
      ∀ c ∈ classes, c.decl.Admitted (decls.foldl Hierarchy.withFieldsOf middle) := by
  have kept := Hierarchy.kept_foldl_withFieldsOf middle decls
  have grown := Hierarchy.kept_of_declareAll (declareRounds_eq_ok here)
  have literals := admitted_literal prelude (grown.trans kept)
  have plain := (plainAliases_of_unit read).1
  have scope := admitted_of_foldlM (admitted_classScope file kept literals) read
  exact ⟨⟨scope, plain⟩, admitted_of_completed scope plain here kept completed⟩

/-- The declared types of a compiled unit are well-formed. -/
theorem admitted_decls_of_compile {text file : String} {unit : CompiledUnit}
    (compiled : compile text file = .ok unit) :
    ∀ d ∈ unit.hierarchy.decls, d.Admitted unit.hierarchy := by
  obtain ⟨source, base, program, final, prelude, built, lowered, rfl⟩ := compile_eq_ok compiled
  obtain ⟨heads, declared, middle, s, classes, functions, here, aliases, completed, -, -, -, types,
    -, rfl⟩ := Lowering.lowerUnit_eq_ok lowered
  have all := Lowering.declareRounds_eq_ok here
  obtain ⟨-, ofClasses⟩ :=
    Lowering.admitted_of_lowered prelude here aliases completed program.types
  intro d member
  dsimp only at member ⊢
  rw [types] at member
  rcases Lowering.decls_of_completed (built.declareAll _ all) all completed member with
    old | ⟨c, hc, params, fields⟩
  · obtain ⟨none, bounds⟩ := Prelude.decls_plain prelude d old
    exact TypeDecl.admitted_of_plain none bounds
  · exact (ofClasses c hc).of_eq params fields

/-- In a compiled unit all types are well-formed: names are used as they are declared in its
    hierarchy, and type variables only where they are known. -/
theorem admitted_of_compile {text file : String} {unit : CompiledUnit}
    (compiled : compile text file = .ok unit) : unit.Admitted := by
  have ofDecls := admitted_decls_of_compile compiled
  obtain ⟨source, base, program, final, prelude, built, lowered, rfl⟩ := compile_eq_ok compiled
  obtain ⟨heads, declared, middle, s, classes, functions, here, aliases, completed, methodsOf,
    bound, called, types, methods, rfl⟩ := Lowering.lowerUnit_eq_ok lowered
  obtain ⟨⟨scope, plain⟩, ofClasses⟩ :=
    Lowering.admitted_of_lowered prelude here aliases completed program.types
  refine
    { decls := ofDecls
      types := fun d member => ?_
      methods := fun m member => ?_
      globals := fun binding member => ?_
      entries := fun entry member => ?_ }
  · dsimp only at member ⊢
    rw [types] at member
    obtain ⟨c, hc, rfl⟩ := List.mem_map.1 member
    exact ofClasses c hc
  · dsimp only at member ⊢
    rw [methods] at member
    rcases List.mem_append.1 member with made | function
    · obtain ⟨c, -, made⟩ := List.mem_filterMap.1 made
      exact Lowering.admitted_of_constructor made
    · obtain ⟨f, -, done⟩ := Lowering.exists_of_mem_mapM methodsOf function
      exact Lowering.admitted_of_lowerFunction scope plain done
  · obtain ⟨d, -, done⟩ := Lowering.exists_of_mem_mapM bound member
    exact scope.literals _ (Lowering.lowerGlobal_type done)
  · obtain ⟨⟨e, start⟩, -, done⟩ := Lowering.exists_of_mem_mapM called member
    exact Lowering.yields_lowerEntry scope.covered e start entry done

namespace Examples

/-- A unit with a class in front of its supertype, a bound that mentions another parameter and a
    test for an alias. -/
def roundSource : String :=
  "class Disk<T extends Real, U extends Vector<T>> extends Round \x7b marks: U; \x7d\n" ++
    "abstract class Round \x7b\x7d\n" ++
    "type Mark = Int | Disk;\n" ++
    "function f<T>(x: T) \x7b let y: Vector<T> = [x]; return y instanceof Mark; \x7d\n"

theorem admitted_of_compile_round :
    ∃ unit, compile roundSource "round.tpr" = .ok unit ∧ unit.Admitted ∧
      (unit.program.types.flatMap (·.params)).map (·.bound.id) = ["Real", "Vector\x7bT\x7d"] := by
  obtain ⟨unit, compiled, named⟩ := Inference.exists_of_any
    (show (compile roundSource "round.tpr").toOption.any (fun unit =>
      (unit.program.types.flatMap (·.params)).map (·.bound.id) ==
        ["Real", "Vector\x7bT\x7d"]) = true by decide +kernel)
  exact ⟨unit, compiled, admitted_of_compile compiled, by simpa using named⟩

end Examples

end Multimethod
