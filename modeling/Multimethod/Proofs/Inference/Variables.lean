import Multimethod.Profile.Basic
import Multimethod.Proofs.Inference.KindsOfPrograms
import Multimethod.Proofs.Lowering.Units

/-!
# Type variables in a run

A type variable has a meaning only inside of the method or class that declares it. Signatures and
field types lose theirs where a call or an access binds them, so that none gets into a call tree or
into the cache, as long as the bodies of a unit and the bounds of its variables name none themselves.
-/

namespace Multimethod

open Multimethod.Lattice

/-! ## Fields -/

namespace Hierarchy

variable {params : List TypeParam} {args : List Ty} {bindings : Assoc Ty}

theorem isSome_bindParams {name : String}
    (known : (∃ param ∈ params, param.name = name) ∨ (bindings.find? name).isSome = true) :
    ((bindParams params args bindings).find? name).isSome = true := by
  induction params generalizing args bindings with
  | nil => exact known.resolve_left (by simp)
  | cons param params ih =>
      have next : ∀ t, (∃ param ∈ params, param.name = name) ∨
          ((bindings.insert param.name t).find? name).isSome = true := by
        intro t
        rw [Assoc.find?_insert]
        split
        · exact .inr rfl
        · rename_i different
          refine known.imp_left ?_
          rintro ⟨other, member, same⟩
          rcases List.mem_cons.1 member with rfl | further
          · exact absurd same different
          · exact ⟨other, further, same⟩
      cases args with
      | nil => exact ih (next _)
      | cons arg args => exact ih (next _)

end Hierarchy

/-- A field of an instance whose arguments mention no variables has a type that mentions none. -/
theorem hasVars_fieldType? {h : Hierarchy} {name field : String} {args : List Ty} {t : Ty}
    (fields : ∀ d ∈ h.decls, Lowering.FieldsWithin d)
    (bounds : ∀ d ∈ h.decls, ∀ param ∈ d.params, param.bound.hasVars = false)
    (closed : ∀ a ∈ args, a.hasVars = false) (found : h.fieldType? name args field = some t) :
    t.hasVars = false := by
  unfold Hierarchy.fieldType? at found
  split at found
  · cases found
  · rename_i decl declared
    have member := List.mem_of_find?_eq_some declared
    split at found
    · cases found
    · rename_i table has
      obtain ⟨type, here, rfl⟩ := Option.map_eq_some_iff.1 found
      refine Ty.hasVars_substitute (fun v mentioned => Hierarchy.isSome_bindParams (.inl ?_)) ?_
      · obtain ⟨param, among, same, -⟩ :=
          fields decl member table has _ (Assoc.mem_of_find? here) v mentioned
        exact ⟨param, among, same⟩
      · exact Hierarchy.forall_mem_bindParams (fun t => t.hasVars = false) (bounds decl member)
          closed (by simp)

/-! ## The prelude -/

/-- The builtin methods have no bodies, and their variables bounds without variables. -/
theorem Prelude.methods_plain : ∀ m ∈ Prelude.builtin.methods, m.body = none ∧
    (∀ v ∈ m.typeParams, v.bound.hasVars = false) ∧
      ∀ p ∈ m.params, ∀ v ∈ p.type.vars, v.bound.hasVars = false := by
  have computed : (Prelude.builtin.methods.all fun m => m.body.isNone &&
      (m.typeParams.all (!·.bound.hasVars) && m.params.all fun p =>
        p.type.vars.all (!·.bound.hasVars))) = true := by decide +kernel
  simpa using computed

/-! ## Compiled units -/

/-- Whether neither the bodies of the functions of a unit nor the bounds of its type variables
    mention type variables. -/
structure CompiledUnit.NamesNoVars (unit : CompiledUnit) : Prop where
  bodies : ∀ m ∈ unit.program.methods, ∀ stmts ∈ m.body, ∀ t ∈ Stmt.allTypes stmts,
    t.hasVars = false
  clauses : ∀ m ∈ unit.program.methods, ∀ v ∈ m.typeParams, v.bound.hasVars = false
  classes : ∀ d ∈ unit.program.types, ∀ param ∈ d.params, param.bound.hasVars = false

theorem structural_hasVars (h : Hierarchy) : Structural h fun t => t.hasVars = false where
  bottom := rfl
  any := rfl
  union _ := Ty.anyHasVars_eq_false_iff
  args _ _ := Ty.anyHasVars_eq_false_iff.1
  applied _ _ _ _ := Ty.anyHasVars_eq_false_iff.2
  bound _ _ closed := by cases closed
  abstract _ _ := rfl

theorem Method.of_plain {m : Method} (body : ∀ stmts ∈ m.body, ∀ t ∈ Stmt.allTypes stmts,
      t.hasVars = false) (clause : ∀ v ∈ m.typeParams, v.bound.hasVars = false)
    (bounds : ∀ p ∈ m.params, ∀ v ∈ p.type.vars, v.bound.hasVars = false) :
    m.Of fun t => t.hasVars = false where
  clause := clause
  bounds := bounds
  params _ _ _ _ := Ty.hasVars_erase _
  returns _ _ _ _ := Ty.hasVars_erase _
  body := body

/-- The fields of the types of a unit mention only the parameters of their own type. -/
theorem fieldsWithin_of_compile {text file : String} {unit : CompiledUnit}
    (compiled : compile text file = .ok unit) :
    ∀ d ∈ unit.hierarchy.decls, Lowering.FieldsWithin d := by
  obtain ⟨source, base, program, h, prelude, built, lowered, rfl⟩ := compile_eq_ok compiled
  intro d member
  rcases (Lowering.tidy_of_lowerUnit built lowered).decls d member with old | ⟨-, within⟩
  · intro table has
    rw [(Prelude.decls_plain prelude d old).1] at has
    cases has
  · exact within

namespace Inference

/-- The analysis of such a unit is closed in the types without variables. -/
theorem closed_of_compile {text file : String} {unit : CompiledUnit}
    (compiled : compile text file = .ok unit) (names : unit.NamesNoVars) (options : Options) :
    Closed (unit.setting options) (fun t => t.hasVars = false) ∧
      ∀ entry ∈ unit.program.entries, ∀ t ∈ Expr.allTypes entry.args, t.hasVars = false := by
  have fields := fieldsWithin_of_compile compiled
  obtain ⟨source, base, program, h, prelude, built, lowered, rfl⟩ := compile_eq_ok compiled
  obtain ⟨decls, methods, globals, entries⟩ := Lowering.tidy_of_lowerUnit built lowered
  have builtin := Prelude.decls_plain prelude
  have bounds : ∀ d ∈ h.decls, ∀ param ∈ d.params, param.bound.hasVars = false := by
    intro d member
    rcases decls d member with old | ⟨⟨decl, here, params⟩, -⟩
    · intro param among
      rw [(builtin d old).2 param among]
      rfl
    · rw [params]
      exact names.classes decl here
  refine ⟨?_, entries⟩
  exact {
    toKeeps := (structural_hasVars h).keeps
    bool := rfl
    int := rfl
    nothing := rfl
    function := rfl
    vector := fun t closed => Ty.anyHasVars_eq_false_iff.2 (by simpa using closed)
    typeOf := fun t closed => Ty.anyHasVars_eq_false_iff.2 (by simpa using closed)
    named := fun name t found => by
      obtain ⟨decl, -, rfl⟩ := Option.map_eq_some_iff.1 found
      exact Lowering.hasVars_toTy decl
    instances := fun decl _ _ ts _ closed => Ty.anyHasVars_eq_false_iff.2 closed
    fields := fun name args field t closed =>
      hasVars_fieldType? fields bounds (Ty.anyHasVars_eq_false_iff.1 closed)
    methods := fun m member => by
      rcases List.mem_append.1 member with old | new
      · obtain ⟨none, clause, bounds⟩ := Prelude.methods_plain m old
        exact Method.of_plain (by simp [none]) clause bounds
      · exact Method.of_plain (names.bodies m new) (names.clauses m new)
          fun p hp v mentioned => names.clauses m new v ((methods m new).params p hp v mentioned)
    globals := of_globalEnvironment fun binding member => by
      have literal := globals binding member
      simp only [Ty.literals, List.mem_cons, List.not_mem_nil, or_false] at literal
      rcases literal with same | same | same | same | same <;> rw [same] <;> rfl }

/-- If no body of a unit and no bound of a type variable mentions a type variable, then none gets into
    a run: not into the arguments and returned types of any frame of a call tree, and not into the
    arguments of the key of any call. -/
theorem no_variable_escapes {text file : String} {unit : CompiledUnit}
    (compiled : compile text file = .ok unit) (names : unit.NamesNoVars) (options : Options)
    {entries : List EntryCall} (among : ∀ entry ∈ entries, entry ∈ unit.program.entries) :
    (∀ result, run (unit.setting options) unit.program.file entries = .ok result →
      ∀ frame, .frame frame ∈ result.outcomes → ∀ g, Frame.Within g frame →
        (∀ a ∈ g.args, a.hasVars = false) ∧ g.ret.hasVars = false) ∧
      ∀ call, InRun (unit.setting options) entries call →
        ∀ a ∈ call.widened (unit.setting options), a.hasVars = false := by
  obtain ⟨closed, named⟩ := closed_of_compile compiled names options
  have ofEntries : EntriesOf (fun t => t.hasVars = false) entries := fun entry member =>
    named entry (among entry member)
  refine ⟨fun result ran frame member => ?_, fun call inRun => ?_⟩
  · exact of_run closed ofEntries ran _ member
  · exact (inRun.of closed ofEntries).widened closed

/-- A unit that computes with type variables, and names none in bodies and bounds. -/
def boxedSource : String :=
  "class Box<T extends Number> \x7b item: T; \x7d\n" ++
    "function f<T extends Number>(box: Box<T>): T \x7b\n" ++
    "  let y: Real = box.item;\n" ++
    "  if (y instanceof Int) \x7b return y; \x7d\n" ++
    "  return box.item;\n" ++
    "\x7d\n" ++
    "f(Box(1));\n"

/-- Whether a unit names no type variables in bodies and bounds. -/
def namesNoVars (unit : CompiledUnit) : Bool :=
  unit.program.methods.all (fun m =>
      m.body.all (fun stmts => (Stmt.allTypes stmts).all (!·.hasVars)) &&
        m.typeParams.all (!·.bound.hasVars)) &&
    unit.program.types.all fun d => d.params.all (!·.bound.hasVars)

theorem namesNoVars_iff {unit : CompiledUnit} :
    namesNoVars unit = true ↔ unit.NamesNoVars := by
  constructor
  · intro named
    simp only [namesNoVars, Bool.and_eq_true, List.all_eq_true, Option.all_eq_true,
      Bool.not_eq_true'] at named
    exact ⟨fun m member => (named.1 m member).1, fun m member => (named.1 m member).2, named.2⟩
  · intro named
    simp only [namesNoVars, Bool.and_eq_true, List.all_eq_true, Option.all_eq_true,
      Bool.not_eq_true']
    exact ⟨fun m member => ⟨named.bodies m member, named.clauses m member⟩, named.classes⟩

theorem no_variable_escapes_boxed :
    ∃ unit result, compile boxedSource "boxed.tpr" = .ok unit ∧ unit.NamesNoVars ∧
      run (unit.setting {}) unit.program.file unit.program.entries = .ok result ∧
      (∀ frame, .frame frame ∈ result.outcomes → ∀ g, Frame.Within g frame →
        (∀ a ∈ g.args, a.hasVars = false) ∧ g.ret.hasVars = false) ∧
      ∀ call, InRun (unit.setting {}) unit.program.entries call →
        ∀ a ∈ call.widened (unit.setting {}), a.hasVars = false := by
  obtain ⟨unit, compiled, computed⟩ := exists_of_any
    (show (compile boxedSource "boxed.tpr").toOption.any (fun unit => namesNoVars unit &&
      (run (unit.setting {}) unit.program.file unit.program.entries).toOption.any
        fun _ => true) = true by decide +kernel)
  rw [Bool.and_eq_true] at computed
  obtain ⟨result, answer, -⟩ := exists_of_any computed.2
  have names := namesNoVars_iff.1 computed.1
  obtain ⟨frames, calls⟩ := no_variable_escapes compiled names {} fun _ member => member
  exact ⟨unit, result, compiled, names, answer, frames result answer, calls⟩

/-- A unit in which a local variable is declared with the type variable of its function. -/
def ascribedSource : String :=
  "function g(a) \x7b return a; \x7d\n" ++
    "function f<T extends Int>(x: T) \x7b let y: T = 1.5; return g(y); \x7d\n" ++
    "f(1);\n"

/-- Whether an entry call returns a type variable and passes one on. -/
def leaksVariable : Outcome → Bool
  | .frame frame => frame.ret.hasVars && frame.children.any fun g => g.args.any (·.hasVars)
  | .failure .. => false

/-- The declared type of a local variable is not bound: a number that is converted to it has the type
    variable as its type, and so have what the function calls and returns. -/
theorem ascribed_variable_escapes :
    ∃ unit result frame, compile ascribedSource "ascribed.tpr" = .ok unit ∧
      run (unit.setting {}) unit.program.file unit.program.entries = .ok result ∧
      .frame frame ∈ result.outcomes ∧ frame.ret.hasVars = true ∧
      ∃ g ∈ frame.children, ∃ a ∈ g.args, a.hasVars = true := by
  obtain ⟨unit, compiled, computed⟩ := exists_of_any
    (show (compile ascribedSource "ascribed.tpr").toOption.any (fun unit =>
      (run (unit.setting {}) unit.program.file unit.program.entries).toOption.any fun result =>
        result.outcomes.any leaksVariable) = true by decide +kernel)
  obtain ⟨result, ran, leaks⟩ := exists_of_any computed
  obtain ⟨outcome, member, leaks⟩ := List.any_eq_true.1 leaks
  cases outcome with
  | failure => cases leaks
  | frame frame =>
      simp only [leaksVariable, Bool.and_eq_true, List.any_eq_true] at leaks
      exact ⟨unit, result, frame, compiled, ran, member, leaks.1, leaks.2⟩

end Inference

end Multimethod
