import Multimethod.Proofs.Environment.Merge
import Multimethod.Proofs.Environment.Narrowing
import Multimethod.Proofs.Inference.Kinds

/-!
# Kinds of types in environments

What the analysis does with environments keeps the types that names hold in a kind: assigning,
merging, narrowing by a condition, and what is done with the head of a loop.
-/

namespace Multimethod

open Multimethod.Lattice

/-- The types that a condition tests names for are among those that it names. -/
theorem Expr.mem_types_of_mem_tests {test : Expr} {t : Ty} (member : t ∈ test.tests) :
    t ∈ test.types := by
  fun_induction Expr.tests test with
  | case1 subject loc test loc' =>
      rw [List.mem_singleton.1 member]
      exact List.mem_cons_self
  | case2 callee operand loc ih => simpa [Expr.types, Expr.allTypes] using ih member
  | case3 op left right loc ihLeft ihRight =>
      exact List.mem_append.2 ((List.mem_append.1 member).imp ihLeft ihRight)
  | case4 => cases member

namespace Environment

open Inference

variable {setting : Setting} {kind : Ty → Prop} {env a b : Environment} {name : String} {type : Ty}

theorem of_create (outer : ∀ scope ∈ a.parent, ∀ name binding,
    scope.lookup name = some binding → kind binding.type) (empty : a.bindings = []) :
    a.Of kind := by
  refine ⟨?_, ?_, outer⟩
  · rw [empty]
    exact .nil
  · simp [empty]

theorem Of.lookup (of : env.Of kind) {binding : Binding}
    (found : env.lookup name = some binding) : kind binding.type := by
  rw [lookup_eq] at found
  cases here : env.bindings.find? name with
  | some inner =>
      rw [here, Option.some_or, Option.some.injEq] at found
      rw [← found]
      exact (of.here _ (Assoc.mem_of_find? here)).1
  | none =>
      rw [here, Option.none_or] at found
      obtain ⟨scope, inside, found⟩ := Option.bind_eq_some_iff.1 found
      exact of.outer scope inside name binding found

theorem Of.declared (of : env.Of kind) {declared : Ty}
    (found : (env.lookupLocal name).bind (·.declared) = some declared) : kind declared := by
  unfold lookupLocal at found
  cases scope : env.kind with
  | global => simp [scope] at found
  | method =>
      rw [scope] at found
      obtain ⟨binding, here, found⟩ := Option.bind_eq_some_iff.1 found
      exact (of.here _ (Assoc.mem_of_find? here)).2 _ found

theorem Of.insert (of : env.Of kind) {binding : Binding} (ofType : kind binding.type)
    (ofDeclared : ∀ d ∈ binding.declared, kind d) :
    Of kind { env with bindings := env.bindings.insert name binding } where
  distinct := of.distinct.insert name binding
  here := Assoc.forall_mem_insert
    (fun held : Binding => kind held.type ∧ ∀ d ∈ held.declared, kind d) of.here ⟨ofType, ofDeclared⟩
  outer := of.outer

theorem Of.update (of : env.Of kind) (ofType : kind type) (how : BindingKind)
    {declared : Option Ty} (ofDeclared : ∀ d ∈ declared, kind d) :
    (env.update name type how declared).Of kind := by
  refine of.insert ofType fun d member => ?_
  rw [Option.mem_def, Option.or_eq_some_iff] at member
  rcases member with held | ⟨-, new⟩
  · obtain ⟨binding, here, held⟩ := Option.bind_eq_some_iff.1 held
    exact (of.here _ (Assoc.mem_of_find? here)).2 d held
  · exact ofDeclared d new

/-! ## Merging -/

theorem of_mergeBinding (closed : Closed setting kind) (ofA : a.Of kind) (ofEnv : env.Of kind)
    {entry : String × Binding} (ofType : kind entry.2.type)
    (ofDeclared : ∀ d ∈ entry.2.declared, kind d) :
    Of kind { env with
      bindings := mergeBinding setting.hierarchy a.bindings env.bindings entry } := by
  unfold mergeBinding
  cases found : a.bindings.find? entry.1 with
  | none => exact ofEnv.insert ofType ofDeclared
  | some binding =>
      obtain ⟨held, before⟩ := ofA.here _ (Assoc.mem_of_find? found)
      dsimp only
      split
      · cases env
        exact ofEnv
      · refine ofEnv.insert (closed.join _ _ held ofType) fun d member => ?_
        rw [Option.mem_def, Option.or_eq_some_iff] at member
        rcases member with first | ⟨-, second⟩
        · exact before d first
        · exact ofDeclared d second

theorem Of.merge (closed : Closed setting kind) (ofA : a.Of kind) (ofB : b.Of kind) :
    (merge setting.hierarchy a b).Of kind := by
  refine List.foldlRecOn (motive := fun merged => Of kind { a with bindings := merged })
    b.bindings (mergeBinding setting.hierarchy a.bindings) ?_ fun merged of entry member => ?_
  · cases a
    exact ofA
  · obtain ⟨ofType, ofDeclared⟩ := ofB.here entry member
    exact of_mergeBinding closed ofA of ofType ofDeclared

theorem of_mergeFlows (closed : Closed setting kind) {flows : List Flow}
    (of : ∀ flow ∈ flows, Flow.Of kind flow) : (mergeFlows setting.hierarchy flows).Of kind :=
  forall_mem_mergeFlows (fun _ _ => Of.merge closed) of

/-! ## The head of a loop -/

theorem of_widenAll (closed : Closed setting kind) (of : env.Of kind) {histories : Histories}
    (taken : histories.Of kind) (threshold : Nat) :
    (widenAll setting.hierarchy env histories threshold).1.Of kind ∧
      (widenAll setting.hierarchy env histories threshold).2.Of kind := by
  have start : (env, histories).1.Of kind ∧ (env, histories).2.Of kind := ⟨of, taken⟩
  refine List.foldlRecOn (motive := fun state => state.1.Of kind ∧ state.2.Of kind) env.bindings
    (widenBinding setting.hierarchy threshold) start fun state before entry member => ?_
  have history : ∀ t ∈ (state.2.find? entry.1).getD [] ++ [entry.2.type], kind t := by
    intro t known
    rcases List.mem_append.1 known with old | new
    · cases found : state.2.find? entry.1 with
      | none => simp [found] at old
      | some held =>
          rw [found] at old
          exact before.2 _ (Assoc.mem_of_find? found) t old
    · rw [List.mem_singleton.1 new]
      exact (of.here entry member).1
  have recorded : Histories.Of kind
      (state.2.insert entry.1 ((state.2.find? entry.1).getD [] ++ [entry.2.type])) :=
    Assoc.forall_mem_insert (fun taken : List Ty => ∀ t ∈ taken, kind t) before.2 history
  unfold widenBinding
  dsimp only
  split
  · exact ⟨before.1.update (closed.widen _ _ history) _ (by simp), recorded⟩
  · exact ⟨before.1, recorded⟩

theorem of_topDivergent (closed : Closed setting kind) {next : Environment} (of : next.Of kind)
    (env : Environment) : (topDivergent env next).Of kind := by
  refine List.foldlRecOn (motive := Of kind) next.bindings _ of fun result before entry _ => ?_
  split
  · exact before
  · exact before.update closed.any _ (by simp)

/-! ## Narrowing -/

theorem of_narrowName (closed : Closed setting kind) (of : env.Of kind) {test : Ty}
    (ofTest : kind test) (truthy : Bool) :
    (narrowName setting.hierarchy env name test truthy).Of kind := by
  intro env' reached
  unfold narrowName at reached
  cases found : env.lookup name with
  | none =>
      rw [found] at reached
      cases reached
      exact of
  | some binding =>
      have ofType := of.lookup found
      have narrowed : kind (if truthy then meet setting.hierarchy binding.type test
          else subtract setting.hierarchy binding.type test) := by
        cases truthy with
        | true => exact closed.meet _ _ ofType ofTest
        | false => exact closed.subtract _ _ ofType
      simp only [found] at reached
      generalize (if truthy then meet setting.hierarchy binding.type test
        else subtract setting.hierarchy binding.type test) = left at narrowed reached
      split at reached
      · cases reached
        exact of
      · split at reached
        · cases reached
        · cases reached
          exact of.update narrowed _ (by simp)

theorem of_some (of : env.Of kind) : Flow.Of kind (some env) := by
  rintro _ ⟨⟩
  exact of

theorem of_none : Flow.Of kind none := by
  rintro _ ⟨⟩

theorem of_narrow (closed : Closed setting kind) {test : Expr} (ofTypes : ∀ t ∈ test.types, kind t)
    (of : env.Of kind) (truthy : Bool) : (narrow setting.hierarchy env test truthy).Of kind :=
  forall_mem_narrow
    (fun t member _ _ truthy of =>
      of_narrowName closed of (ofTypes t (Expr.mem_types_of_mem_tests member)) truthy)
    (fun _ _ => Of.merge closed) of

end Environment

end Multimethod
