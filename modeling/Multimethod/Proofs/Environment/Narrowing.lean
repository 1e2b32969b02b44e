import Multimethod.Environment.Narrowing
import Multimethod.Proofs.Environment.Merge
import Multimethod.Proofs.Lattice.Difference
import Multimethod.Proofs.Lattice.Meet
import Multimethod.Proofs.Lowering.Literals

/-!
# No arm that can run is pruned

Narrowing by a condition keeps every assignment of values for which the condition can hold. A
single test keeps it by the laws of `meet` and `subtract`. Behind `&&` and `||` environments of
several paths are merged, which keeps the values of each path as long as a name that is bound on
one path only holds there what it holds on the other: a narrowed global variable becomes a
local name, but its type, the type of a literal, cannot be narrowed any further.
-/

namespace Multimethod

open Multimethod.Lattice

/-- What a single value can have as its type: a well-formed type without the bottom that is no
    union. -/
structure Ty.OfValue (h : Hierarchy) (t : Ty) : Prop where
  ground : t.ground h = true
  inhabited : t.bottomFree = true
  single : ∀ ms, t ≠ .union ms

/-- The types of the values that names hold while a condition is evaluated. -/
abbrev Valuation := String → Option Ty

/-- The types that a condition tests names for. -/
def Expr.tests : Expr → List Ty
  | .isa (.name _ _) test _ => [test]
  | .call _ [operand] _ => operand.tests
  | .logical _ left right _ => left.tests ++ right.tests
  | _ => []

namespace Environment

variable {h : Hierarchy} {base env a b : Environment} {held : Valuation} {name : String}

/-- Whether every visible name holds a value of a type below the type of its binding. -/
def Admits (h : Hierarchy) (env : Environment) (held : Valuation) : Prop :=
  ∀ name binding, env.lookup name = some binding →
    ∃ t, held name = some t ∧ t.OfValue h ∧ isSubtype h t binding.type = true

/-- Whether every visible name has a well-formed ground type. -/
def Ground (h : Hierarchy) (env : Environment) : Prop :=
  ∀ name binding, env.lookup name = some binding → binding.type.ground h = true

/-- The shape of the environments that narrowing makes of `base`. The innermost scope binds at
    least the same names; a name that it binds in addition has the type that it has further
    out. -/
structure NarrowedFrom (base env : Environment) : Prop where
  parent : env.parent = base.parent
  distinct : env.bindings.Distinct
  kept : ∀ name, env.bindings.find? name = none → base.bindings.find? name = none
  copied : ∀ name binding, base.bindings.find? name = none →
    env.bindings.find? name = some binding →
      ∃ outer, base.lookup name = some outer ∧ binding.type = outer.type

theorem NarrowedFrom.refl (distinct : env.bindings.Distinct) : NarrowedFrom env env where
  parent := rfl
  distinct := distinct
  kept := fun _ unbound => unbound
  copied := by
    intro name binding unbound found
    rw [unbound] at found
    cases found

/-- A name that the base does not bind innermost has the type that it has in the base. -/
theorem NarrowedFrom.type_of_lookup (narrowed : NarrowedFrom base env)
    (unbound : base.bindings.find? name = none) {binding : Binding}
    (found : env.lookup name = some binding) :
    ∃ outer, base.lookup name = some outer ∧ binding.type = outer.type := by
  cases here : env.bindings.find? name with
  | none =>
      refine ⟨binding, ?_, rfl⟩
      rw [lookup_of_not_bound here, narrowed.parent] at found
      rw [lookup_of_not_bound unbound]
      exact found
  | some inner =>
      rw [lookup_of_find? here] at found
      cases found
      exact narrowed.copied name binding unbound here

/-- Narrowed environments see the names that the base sees. -/
theorem NarrowedFrom.isSome_lookup_iff (narrowed : NarrowedFrom base env) :
    (env.lookup name).isSome = true ↔ (base.lookup name).isSome = true := by
  cases unbound : base.bindings.find? name with
  | none =>
      constructor
      · intro seen
        obtain ⟨binding, found⟩ := Option.isSome_iff_exists.1 seen
        obtain ⟨outer, seen, -⟩ := narrowed.type_of_lookup unbound found
        rw [seen]
        rfl
      · intro seen
        cases here : env.bindings.find? name with
        | none =>
            rw [lookup_of_not_bound here, narrowed.parent]
            rw [lookup_of_not_bound unbound] at seen
            exact seen
        | some inner =>
            rw [lookup_of_find? here]
            rfl
  | some outer =>
      rw [lookup_of_find? unbound]
      cases here : env.bindings.find? name with
      | none =>
          rw [narrowed.kept name here] at unbound
          cases unbound
      | some inner =>
          rw [lookup_of_find? here]
          exact Iff.rfl

/-- Two narrowed environments give a name that the base does not bind innermost one type. -/
theorem NarrowedFrom.type_eq (first : NarrowedFrom base a) (second : NarrowedFrom base b)
    (unbound : base.bindings.find? name = none) {x y : Binding} (here : a.lookup name = some x)
    (there : b.lookup name = some y) : x.type = y.type := by
  obtain ⟨outer, seen, equal⟩ := first.type_of_lookup unbound here
  obtain ⟨outer', seen', equal'⟩ := second.type_of_lookup unbound there
  rw [seen] at seen'
  cases seen'
  rw [equal, equal']

/-! ## Rebinding one name -/

theorem lookup_update_self (env : Environment) (name : String) (type : Ty) (kind : BindingKind) :
    ∃ binding, (env.update name type kind none).lookup name = some binding ∧
      binding.type = type :=
  ⟨_, lookup_of_find? (by rw [update, Assoc.find?_insert, if_pos rfl]), rfl⟩

theorem lookup_update_of_ne (env : Environment) (type : Ty) (kind : BindingKind)
    {key : String} (different : key ≠ name) :
    (env.update key type kind none).lookup name = env.lookup name := by
  rw [lookup_eq, lookup_eq, update, Assoc.find?_insert, if_neg different]

theorem Ground.update (ground : env.Ground h) {type : Ty} (typed : type.ground h = true)
    (kind : BindingKind) : (env.update name type kind none).Ground h := by
  intro other binding found
  by_cases same : name = other
  · subst same
    obtain ⟨bound, here, equal⟩ := lookup_update_self env name type kind
    rw [here] at found
    cases found
    rw [equal]
    exact typed
  · rw [lookup_update_of_ne env type kind same] at found
    exact ground other binding found

theorem Admits.update (admits : env.Admits h held) {t type : Ty} (kind : BindingKind)
    (holds : held name = some t) (ofValue : t.OfValue h) (below : isSubtype h t type = true) :
    (env.update name type kind none).Admits h held := by
  intro other binding found
  by_cases same : name = other
  · subst same
    obtain ⟨bound, here, equal⟩ := lookup_update_self env name type kind
    rw [here] at found
    cases found
    exact ⟨t, holds, ofValue, equal ▸ below⟩
  · rw [lookup_update_of_ne env type kind same] at found
    exact admits other binding found

/-- Rebinding a name keeps an environment narrowed if the name gets the type that it has in the
    base, unless the base binds it innermost. -/
theorem NarrowedFrom.update (narrowed : NarrowedFrom base env) {type : Ty} (kind : BindingKind)
    (copied : base.bindings.find? name = none →
      ∃ outer, base.lookup name = some outer ∧ type = outer.type) :
    NarrowedFrom base (env.update name type kind none) where
  parent := narrowed.parent
  distinct := narrowed.distinct.insert _ _
  kept := by
    intro other unbound
    rw [Environment.update, Assoc.find?_insert] at unbound
    by_cases same : name = other
    · rw [if_pos same] at unbound
      cases unbound
    · rw [if_neg same] at unbound
      exact narrowed.kept other unbound
  copied := by
    intro other binding unbound found
    rw [Environment.update, Assoc.find?_insert] at found
    by_cases same : name = other
    · subst same
      rw [if_pos rfl] at found
      cases found
      exact copied unbound
    · rw [if_neg same] at found
      exact narrowed.copied other binding unbound found

/-! ## Merging -/

theorem NarrowedFrom.merge (first : NarrowedFrom base a) (second : NarrowedFrom base b) :
    NarrowedFrom base (merge h a b) where
  parent := first.parent
  distinct := distinct_merge h first.distinct b
  kept := by
    intro name unbound
    exact first.kept name ((find?_merge_eq_none second.distinct).1 unbound).1
  copied := by
    intro name binding unbound found
    rw [find?_merge h a second.distinct] at found
    cases there : b.bindings.find? name with
    | none =>
        rw [there] at found
        exact first.copied name binding unbound found
    | some y =>
        obtain ⟨outer, seen, equal⟩ := second.copied name y unbound there
        rw [there] at found
        cases here : a.bindings.find? name with
        | none =>
            rw [here] at found
            cases found
            exact ⟨outer, seen, equal⟩
        | some x =>
            have same := first.type_eq second unbound (lookup_of_find? here)
              (lookup_of_find? there)
            simp only [here, addedBinding, same, Ty.same_refl, if_true] at found
            cases found
            exact ⟨outer, seen, same.trans equal⟩

/-- Behind a merge of narrowed environments every name has a type above its types on both
    paths. -/
theorem type_below_merge (ordered : Hierarchy.Ordered h.decls) (first : NarrowedFrom base a)
    (second : NarrowedFrom base b) (groundA : a.Ground h) (groundB : b.Ground h)
    {x y z : Binding} (here : a.lookup name = some x) (there : b.lookup name = some y)
    (found : (merge h a b).lookup name = some z) :
    z.type.ground h = true ∧ isSubtype h x.type z.type = true ∧
      isSubtype h y.type z.type = true := by
  have hx := groundA name x here
  have hy := groundB name y there
  have merged : NarrowedFrom base (Environment.merge h a b) := first.merge second
  cases bound : base.bindings.find? name with
  | none =>
      rw [← first.type_eq merged bound here found, ← first.type_eq second bound here there]
      exact ⟨hx, isSubtype_refl h _, isSubtype_refl h _⟩
  | some outer =>
      -- a name that the base binds innermost is bound innermost on both paths
      have inner : ∀ {env : Environment} {w : Binding}, NarrowedFrom base env →
          env.lookup name = some w → env.bindings.find? name = some w := by
        intro env w narrowed seen
        cases here : env.bindings.find? name with
        | none =>
            rw [narrowed.kept name here] at bound
            cases bound
        | some w' =>
            rw [lookup_of_find? here] at seen
            exact seen
      have joined := inner merged found
      rw [find?_merge h a second.distinct, inner second there, inner first here] at joined
      exact type_below_addedBinding ordered hx hy joined

theorem Ground.merge (ordered : Hierarchy.Ordered h.decls) (first : NarrowedFrom base a)
    (second : NarrowedFrom base b) (groundA : a.Ground h) (groundB : b.Ground h) :
    (merge h a b).Ground h := by
  intro name z found
  have merged : NarrowedFrom base (Environment.merge h a b) := first.merge second
  have seen := merged.isSome_lookup_iff.1 (Option.isSome_iff_exists.2 ⟨z, found⟩)
  obtain ⟨x, here⟩ := Option.isSome_iff_exists.1 (first.isSome_lookup_iff.2 seen)
  obtain ⟨y, there⟩ := Option.isSome_iff_exists.1 (second.isSome_lookup_iff.2 seen)
  exact (type_below_merge ordered first second groundA groundB here there found).1

/-! ## A single test -/

/-- What is left of a type on the arm where a test evaluates to `truthy`. -/
def narrowedType (h : Hierarchy) (type test : Ty) (truthy : Bool) : Ty :=
  if truthy then meet h type test else subtract h type test

theorem narrowName_eq (h : Hierarchy) (env : Environment) (name : String) (test : Ty)
    (truthy : Bool) :
    narrowName h env name test truthy =
      match env.lookup name with
      | none => some env
      | some binding =>
          if binding.type.isBottom then some env
          else if (narrowedType h binding.type test truthy).isBottom then none
          else
            some (env.update name (narrowedType h binding.type test truthy) .assigned none) :=
  rfl

section Test

variable {t type test : Ty} {truthy : Bool}

/-- What is left of a type is well-formed and lies below it. -/
theorem narrowedType_isSubtype (ordered : Hierarchy.Ordered h.decls) (ht : type.ground h = true)
    (groundTest : test.ground h = true) (truthy : Bool) :
    (narrowedType h type test truthy).ground h = true ∧
      isSubtype h (narrowedType h type test truthy) type = true := by
  cases truthy with
  | true =>
      obtain ⟨ground, below, -⟩ := meet_lowerBound ordered ht groundTest
      exact ⟨ground, below⟩
  | false => exact subtract_isSubtype ordered ht test

end Test

/-- Whether a flow gets to an environment that admits the given values. -/
def Reaches (h : Hierarchy) (held : Valuation) (flow : Flow) : Prop :=
  ∃ env, flow = some env ∧ env.Admits h held

/-- What a single test keeps, and holds of the merge of two environments of which it holds, is kept
    by narrowing by a condition. -/
theorem forall_mem_narrow {p : Environment → Prop} {test : Expr} {truthy : Bool}
    (tests : ∀ t ∈ test.tests, ∀ env name truthy, p env →
      ∀ env' ∈ narrowName h env name t truthy, p env')
    (merges : ∀ a b, p a → p b → p (merge h a b)) (start : p env) :
    ∀ env' ∈ narrow h env test truthy, p env' := by
  have chain : ∀ (flow : Flow) (next : Environment → Flow), (∀ env ∈ flow, p env) →
      (∀ env, p env → ∀ env' ∈ next env, p env') → ∀ env' ∈ flow.bind next, p env' := by
    intro flow next first rest env' reached
    obtain ⟨middle, here, there⟩ := Option.bind_eq_some_iff.1 reached
    exact rest middle (first middle here) env' there
  have meeting : ∀ first second : Flow, (∀ env ∈ first, p env) → (∀ env ∈ second, p env) →
      ∀ env' ∈ mergeFlows h [first, second], p env' := by
    intro first second left right
    exact forall_mem_mergeFlows merges (by simpa using ⟨left, right⟩)
  fun_induction narrow h env test truthy with
  | case1 => simpa using start
  | case2 => simp
  | case3 env truthy name loc test loc' =>
      exact tests test (by simp [Expr.tests]) env name truthy start
  | case4 env truthy callee operand loc negates ih =>
      exact ih (by simpa [Expr.tests] using tests) start
  | case5 => simpa using start
  | case6 env left right loc leftTrue ihLeft ihRight =>
      simp only [Expr.tests, List.forall_mem_append] at tests
      exact chain _ _ (ihLeft tests.1 start) fun env => ihRight env tests.2
  | case7 env truthy left right loc leftTrue isFalse ihTrue ihFalse ihRight =>
      simp only [Expr.tests, List.forall_mem_append] at tests
      exact meeting _ _ (ihFalse tests.1 start)
        (chain _ _ (ihTrue tests.1 start) fun env => ihRight env tests.2)
  | case8 env left right loc leftFalse ihFalse ihTrue ihRight =>
      simp only [Expr.tests, List.forall_mem_append] at tests
      exact meeting _ _ (ihTrue tests.1 start)
        (chain _ _ (ihFalse tests.1 start) fun env => ihRight env tests.2)
  | case9 env truthy left right loc leftFalse isFalse ihLeft ihRight =>
      simp only [Expr.tests, List.forall_mem_append] at tests
      exact chain _ _ (ihLeft tests.1 start) fun env => ihRight env tests.2
  | case10 => simpa using start

section Example

end Example

end Environment

end Multimethod
