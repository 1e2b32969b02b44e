import Multimethod.Proofs.Inference.KindsOfCalls
import Multimethod.Proofs.Lattice.Structural
import Multimethod.Proofs.Ty.Spelling

/-!
# Kinds that a program is closed in

A kind of types that is decided by their parts is closed under the analysis of a program if all types
that the program names are of the kind.
-/

namespace Multimethod

open Multimethod.Lattice

theorem Lattice.Structural.keeps {h : Hierarchy} {kind : Ty → Prop}
    (structural : Structural h kind) : Keeps h kind where
  bottom := structural.bottom
  any := structural.any
  member _ := structural.member
  arg := structural.args
  bound := structural.bound
  join _ _ := structural.join
  meet _ _ := structural.meet
  subtract _ b := structural.subtract b
  widen _ threshold of := structural.widen of threshold

namespace Hierarchy

variable {params : List TypeParam} {args : List Ty} {bindings : Assoc Ty}

theorem forall_mem_bindParams (p : Ty → Prop) (bounds : ∀ param ∈ params, p param.bound)
    (given : ∀ a ∈ args, p a) (all : ∀ entry ∈ bindings, p entry.2) :
    ∀ entry ∈ bindParams params args bindings, p entry.2 := by
  induction params generalizing args bindings with
  | nil => exact all
  | cons param params ih =>
      rw [List.forall_mem_cons] at bounds
      cases args with
      | nil => exact ih bounds.2 given (Assoc.forall_mem_insert p all bounds.1)
      | cons arg args =>
          rw [List.forall_mem_cons] at given
          exact ih bounds.2 given.2 (Assoc.forall_mem_insert p all given.1)

end Hierarchy

/-! ## The types that a program names -/

/-- The types that a declaration names: the bounds of its parameters and the types of its fields. -/
def TypeDecl.types (decl : TypeDecl) : List Ty :=
  decl.params.map (·.bound) ++ (decl.fields.getD []).map (·.2)

/-- The types that a method names: those of its signature and those of its body. -/
def Method.types (m : Method) : List Ty :=
  m.typeParams.map (·.bound) ++ m.params.map (·.type) ++ m.returns.toList ++
    (m.body.map Stmt.allTypes).getD []

/-- The names of the builtin types that the analysis makes instances of. -/
def builtinNames : List String :=
  ["Bool", "Int", "Nothing", "Function", "Vector", "Type"]

namespace Inference

open Dispatch

theorem of_globalEnvironment {kind : Ty → Prop} {globals : List GlobalBinding}
    (of : ∀ binding ∈ globals, kind binding.type) : (globalEnvironment globals).Of kind := by
  refine List.foldlRecOn (motive := Environment.Of kind) globals _ (Environment.of_create ?_ rfl)
    fun env before binding member => before.update (of binding member) _ (by simp)
  rintro _ ⟨⟩

/-- Every analysis is closed in the types. -/
theorem closed_true {setting : Setting} (distinct : setting.globals.bindings.Distinct) :
    Closed setting fun _ => True where
  toKeeps := by constructor <;> simp
  bool := trivial
  int := trivial
  nothing := trivial
  function := trivial
  vector _ _ := trivial
  typeOf _ _ := trivial
  named _ _ _ := trivial
  instances _ _ _ _ _ _ := trivial
  fields _ _ _ _ _ _ := trivial
  methods _ _ := by constructor <;> simp
  globals := ⟨distinct, by simp, by simp⟩

variable {setting : Setting} {kind : Ty → Prop}

/-- The analysis of a program is closed in a kind that is decided by the parts of a type, if the
    types that the program names are of the kind, and the instances of the declared types are. -/
theorem closed_of_structural (structural : Structural setting.hierarchy kind)
    (instances : ∀ name ∈ builtinNames ++ setting.hierarchy.decls.map (·.name), ∀ ps : List Ty,
      (∀ p ∈ ps, kind p) → kind (.concrete name ps))
    (decls : ∀ d ∈ setting.hierarchy.decls, ∀ t ∈ d.types, kind t)
    (methods : ∀ m ∈ setting.table.methods, ∀ t ∈ m.types, kind t)
    (values : setting.globals.Of kind) : Closed setting kind where
  toKeeps := structural.keeps
  bool := instances _ (by simp [builtinNames]) [] (by simp)
  int := instances _ (by simp [builtinNames]) [] (by simp)
  nothing := instances _ (by simp [builtinNames]) [] (by simp)
  function := instances _ (by simp [builtinNames]) [] (by simp)
  vector t of := instances _ (by simp [builtinNames]) [t] (by simpa using of)
  typeOf t of := instances _ (by simp [builtinNames]) [t] (by simpa using of)
  named name t found := by
    obtain ⟨decl, declared, rfl⟩ := Option.map_eq_some_iff.1 found
    have same : decl.name = name := by simpa using List.find?_some declared
    have known : setting.hierarchy.has name = true := by
      rw [Hierarchy.has, show setting.hierarchy.find? name = some decl from declared,
        Option.isSome_some]
    unfold TypeDecl.toTy
    split
    · exact structural.any
    · split
      · exact structural.abstract _ (same ▸ known)
      · exact instances _ (List.mem_append_right _ (List.mem_map.2
          ⟨decl, List.mem_of_find?_eq_some declared, rfl⟩)) [] (by simp)
  instances decl member _ ts _ of :=
    instances _ (List.mem_append_right _ (List.mem_map.2 ⟨decl, member, rfl⟩)) ts of
  fields name args field t of found := by
    unfold Hierarchy.fieldType? at found
    split at found
    · cases found
    · rename_i decl declared
      have named := decls decl (List.mem_of_find?_eq_some declared)
      split at found
      · cases found
      · rename_i entries has
        obtain ⟨type, here, rfl⟩ := Option.map_eq_some_iff.1 found
        refine structural.substitute ?_ (named type (List.mem_append_right _ ?_))
        · exact Hierarchy.forall_mem_bindParams kind
            (fun param among => named _ (List.mem_append_left _ (List.mem_map.2
              ⟨param, among, rfl⟩))) (structural.args _ _ of) (by simp)
        · rw [has, Option.getD_some]
          exact List.mem_map.2 ⟨_, Assoc.mem_of_find? here, rfl⟩
  methods m member := by
    have named := methods m member
    simp only [Method.types, List.append_assoc, List.forall_mem_append, List.forall_mem_map]
      at named
    obtain ⟨clause, params, returns, body⟩ := named
    exact {
      clause := clause
      bounds := fun p hp v mentioned => structural.mem_vars (params p hp) mentioned
      params := fun bindings bound p hp =>
        structural.erase (structural.substitute bound (params p hp))
      returns := fun bindings bound t declared =>
        structural.erase (structural.substitute bound (returns t (Option.mem_toList.2 declared)))
      body := fun stmts has t inside => body t (by rwa [Option.mem_def.1 has]) }
  globals := values

/-- If no declared name has a mark in it, it is enough that a kind has the instances of all names
    without marks. -/
theorem closed_of_spelled (structural : Structural setting.hierarchy kind)
    (proper : ∀ d ∈ setting.hierarchy.decls, isSpelled d.name = true)
    (instances : ∀ name, isSpelled name = true → ∀ ps : List Ty, (∀ p ∈ ps, kind p) →
      kind (.concrete name ps))
    (decls : ∀ d ∈ setting.hierarchy.decls, ∀ t ∈ d.types, kind t)
    (methods : ∀ m ∈ setting.table.methods, ∀ t ∈ m.types, kind t)
    (values : setting.globals.Of kind) : Closed setting kind := by
  have builtin : ∀ name ∈ builtinNames, isSpelled name = true := by decide
  have spelled : ∀ name ∈ builtinNames ++ setting.hierarchy.decls.map (·.name),
      isSpelled name = true :=
    List.forall_mem_append.2 ⟨builtin, List.forall_mem_map.2 proper⟩
  exact closed_of_structural structural (fun name known => instances name (spelled name known))
    decls methods values

end Inference

end Multimethod
