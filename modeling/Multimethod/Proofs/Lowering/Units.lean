import Multimethod.Proofs.Lowering.Variables

/-!
# The types of a compiled unit

The declared types of a unit are those of the prelude and its classes, with their fields. What the
unit names outside of functions mentions no type variable, and the signatures of its methods mention
those of their own where-clause.
-/

namespace Multimethod

namespace Hierarchy

variable {h next : Hierarchy} {decls : List TypeDecl} {d decl : TypeDecl}

/-- What is declared behind some declarations was declared before or is one of them. -/
theorem mem_of_declareAll (accepted : h.declareAll decls = .ok next) (member : d ∈ next.decls) :
    d ∈ h.decls ∨ ∃ decl ∈ decls, decl.name = d.name := by
  induction decls generalizing h with
  | nil =>
      cases accepted
      exact .inl member
  | cons decl decls ih =>
      obtain ⟨middle, first, rest⟩ := declareAll_cons accepted
      rcases ih rest with old | ⟨c, hc, same⟩
      · obtain ⟨-, -, -, -, rfl⟩ := declare_eq_ok first
        rcases List.mem_cons.1 old with rfl | older
        · exact .inr ⟨decl, List.mem_cons_self, rfl⟩
        · exact .inl older
      · exact .inr ⟨c, List.mem_cons_of_mem _ hc, same⟩

/-- A declaration is there behind it, below some type. -/
theorem exists_of_declareAll (accepted : h.declareAll decls = .ok next) (member : decl ∈ decls) :
    ∃ d ∈ next.decls, d.name = decl.name ∧ d.params = decl.params := by
  induction decls generalizing h with
  | nil => cases member
  | cons first decls ih =>
      obtain ⟨middle, here, rest⟩ := declareAll_cons accepted
      rcases List.mem_cons.1 member with rfl | further
      · have found := find?_of_declareAll rest ((find?_declare here _).trans (if_pos rfl))
        exact ⟨_, List.mem_of_find?_eq_some found, rfl, rfl⟩
      · exact ih rest further

/-- Behind all fields, a declaration is as it was or has those of a declaration of its name. -/
theorem mem_foldl_withFieldsOf (member : d ∈ (decls.foldl Hierarchy.withFieldsOf h).decls) :
    ∃ old ∈ h.decls, d.name = old.name ∧ d.params = old.params ∧
      ((d = old ∧ ∀ decl ∈ decls, decl.name ≠ d.name) ∨
        ∃ decl ∈ decls, decl.name = d.name ∧ d.fields = decl.fields) := by
  induction decls generalizing h with
  | nil => exact ⟨d, member, rfl, rfl, .inl ⟨rfl, by simp⟩⟩
  | cons decl decls ih =>
      obtain ⟨_, inside, name, params, fields⟩ := ih member
      obtain ⟨old, hold, rfl⟩ := List.mem_map.1 inside
      change d.name = (fieldsFrom decl old).name at name
      change d.params = (fieldsFrom decl old).params at params
      change (d = fieldsFrom decl old ∧ _) ∨ _ at fields
      rw [name_fieldsFrom] at name
      rw [params_fieldsFrom] at params
      refine ⟨old, hold, name, params, ?_⟩
      rcases fields with ⟨same, others⟩ | ⟨c, hc, named, same⟩
      · by_cases here : old.name = decl.name
        · refine .inr ⟨decl, List.mem_cons_self, here.symm.trans name.symm, ?_⟩
          rw [same, fieldsFrom, if_pos here]
        · refine .inl ⟨by rw [same, fieldsFrom, if_neg here], List.forall_mem_cons.2 ⟨?_, others⟩⟩
          exact fun equal => here (name.symm.trans equal.symm)
      · exact .inr ⟨c, List.mem_cons_of_mem _ hc, named, same⟩

end Hierarchy

namespace Lowering

variable {file : String} {h next : Hierarchy}

/-- A constructor takes anything, and names no other type. -/
theorem constructor_eq_some {s : Scope} {c : DeclaredClass} {m : Method}
    (made : constructor? s c = some m) : (∀ p ∈ m.params, p.type = .any) ∧ m.typeParams = [] ∧
      m.returns = none ∧ m.body = none := by
  unfold constructor? at made
  split at made
  · cases made
  · cases made
    exact ⟨List.forall_mem_map.2 fun _ _ => rfl, rfl, rfl, rfl⟩

theorem methodWithin_of_constructor {s : Scope} {c : DeclaredClass} {m : Method}
    (made : constructor? s c = some m) : MethodWithin m := by
  obtain ⟨params, -, returns, body⟩ := constructor_eq_some made
  refine ⟨fun p hp v mentioned => ?_, by simp [returns], by simp [body]⟩
  rw [params p hp] at mentioned
  cases mentioned

/-- What the types that a unit names have to do with type variables. -/
structure Tidy (h : Hierarchy) (program : Program) (next : Hierarchy) : Prop where
  decls : ∀ d ∈ next.decls, d ∈ h.decls ∨
    (∃ decl ∈ program.types, d.params = decl.params) ∧ FieldsWithin d
  methods : ∀ m ∈ program.methods, MethodWithin m
  globals : ∀ binding ∈ program.globals, binding.type ∈ Ty.literals
  entries : ∀ entry ∈ program.entries, ∀ t ∈ Expr.allTypes entry.args, t.hasVars = false

/-- A declared type of a unit is one of those it starts from, or has the parameters and the fields of
    a class. -/
theorem decls_of_completed {s : Scope} {declared classes : List DeclaredClass} {middle : Hierarchy}
    {d : TypeDecl} (built : middle.Declared)
    (all : h.declareAll (declared.map (·.decl)) = .ok middle)
    (completed : declared.mapM (completeClass s) = .ok classes)
    (member : d ∈ ((classes.map (·.decl)).foldl Hierarchy.withFieldsOf middle).decls) :
    d ∈ h.decls ∨ ∃ c ∈ classes, d.params = c.decl.params ∧ d.fields = c.decl.fields := by
  obtain ⟨old, hold, name, same, ⟨rfl, others⟩ | ⟨_, among, named, fields⟩⟩ :=
    Hierarchy.mem_foldl_withFieldsOf member
  · refine (Hierarchy.mem_of_declareAll all hold).imp_right ?_
    rintro ⟨_, among, named⟩
    obtain ⟨c, hc, rfl⟩ := List.mem_map.1 among
    obtain ⟨c', hc', done⟩ := mem_of_mapM completed hc
    exact absurd ((completeClass_eq_ok done).1.trans named)
      (others _ (List.mem_map.2 ⟨c', hc', rfl⟩))
  · obtain ⟨c', hc', rfl⟩ := List.mem_map.1 among
    obtain ⟨c, hc, done⟩ := exists_of_mem_mapM completed hc'
    obtain ⟨name', params, -⟩ := completeClass_eq_ok done
    obtain ⟨own, howns, name'', params'⟩ :=
      Hierarchy.exists_of_declareAll all (List.mem_map.2 ⟨c, hc, rfl⟩)
    have equal : old = own := built.ordered.eq_of_name hold howns (by
      rw [name'', ← name', named, name])
    exact .inr ⟨c', hc', by rw [same, equal, params', params], fields⟩

theorem tidy_of_lowerUnit {unit : Surface.SourceUnit} {program : Program} (built : h.Declared)
    (accepted : lowerUnit file h unit = .ok (program, next)) : Tidy h program next := by
  obtain ⟨heads, declared, middle, s, classes, functions, here, aliases, completed, lowered, bound,
    called, types, methods, rfl⟩ := lowerUnit_eq_ok accepted
  have all := declareRounds_eq_ok here
  obtain ⟨plain, none⟩ := plainAliases_of_unit aliases
  refine ⟨fun d member => ?_, fun m member => ?_, fun binding member => ?_, fun entry member => ?_⟩
  · rw [types] at member ⊢
    refine (decls_of_completed (built.declareAll _ all) all completed member).imp_right ?_
    rintro ⟨c', hc', params, fields⟩
    obtain ⟨c, hc, done⟩ := exists_of_mem_mapM completed hc'
    refine ⟨⟨_, List.mem_map.2 ⟨c', hc', rfl⟩, params⟩, ?_⟩
    unfold FieldsWithin
    rw [fields, params]
    exact fieldsWithin_of_completeClass plain done
  · rw [methods] at member
    rcases List.mem_append.1 member with made | function
    · obtain ⟨c, -, made⟩ := List.mem_filterMap.1 made
      exact methodWithin_of_constructor made
    · obtain ⟨f, -, done⟩ := exists_of_mem_mapM lowered function
      exact methodWithin_of_lowerFunction plain done
  · obtain ⟨d, -, done⟩ := exists_of_mem_mapM bound member
    exact lowerGlobal_type done
  · obtain ⟨⟨e, start⟩, -, done⟩ := exists_of_mem_mapM called member
    exact fun t named =>
      hasVars_of_within none (yields_lowerEntry (covered_within plain) e start entry done t named)

end Lowering

end Multimethod
