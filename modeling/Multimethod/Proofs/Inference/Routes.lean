import Multimethod.Inference.Eval
import Multimethod.Profile.Basic
import Multimethod.Proofs.Environment.Narrowing
import Multimethod.Proofs.Inference.Probe

/-!
# What a name calls under a condition

A condition that tests a global variable binds it in the innermost scope as well, with what is left
of its type. These are the only names that narrowing adds to that scope. As a name of the method
itself comes before a generic function, and a generic function before a global variable, the arm
of such a condition calls the variable where a call outside of it calls the function.
-/

namespace Multimethod

open Multimethod.Lattice

namespace Environment

variable {h : Hierarchy} {env env' : Environment} {name : String} {test left right : Expr}
  {truthy : Bool} {op : LogicalOp} {loc : Location}

/-- Whether narrowing by a condition sets a name: on a path that stays open an instance test asks
    for it, and it holds a value. Where `&&` holds, and where `||` does not, one path leads through
    both operands. Otherwise one path leads through the first operand alone, and another one through
    both. -/
def Rebinds (h : Hierarchy) (name : String) (env : Environment) (test : Expr)
    (truthy : Bool) : Prop :=
  match test with
  | .isa (.name subject _) _ _ =>
      subject = name ∧ ∃ binding, env.lookup name = some binding ∧ binding.type.isBottom = false
  | .call callee [operand] _ => callee = "!" ∧ Rebinds h name env operand (!truthy)
  | .logical op left right _ =>
      if truthy = (op == .and) then
        Rebinds h name env left truthy ∨
          ∃ middle, narrow h env left truthy = some middle ∧ Rebinds h name middle right truthy
      else
        ((narrow h env left truthy).isSome = true ∧ Rebinds h name env left truthy) ∨
          ∃ middle, narrow h env left (!truthy) = some middle ∧
            (narrow h middle right truthy).isSome = true ∧
            (Rebinds h name env left (!truthy) ∨ Rebinds h name middle right truthy)
  | _ => False

/-! ## What narrowing leaves alone -/

/-- Whether a scope is of the same kind as `base`, stands inside the same scope, and sees the same
    names. -/
structure SameNames (base env : Environment) : Prop where
  kind : env.kind = base.kind
  parent : env.parent = base.parent
  distinct : env.bindings.Distinct
  sees : ∀ name, (env.lookup name).isSome = (base.lookup name).isSome

theorem SameNames.update {base : Environment} (same : SameNames base env) {type : Ty}
    (seen : (env.lookup name).isSome = true) (kind : BindingKind) :
    SameNames base (env.update name type kind none) where
  kind := same.kind
  parent := same.parent
  distinct := same.distinct.insert _ _
  sees := by
    intro other
    rw [← same.sees other]
    by_cases equal : name = other
    · subst equal
      obtain ⟨binding, found, -⟩ := lookup_update_self env name type kind
      rw [found, seen, Option.isSome_some]
    · rw [lookup_update_of_ne env type kind equal]

theorem SameNames.merge {base a b : Environment} (ofA : SameNames base a) (ofB : SameNames base b) :
    SameNames base (merge h a b) where
  kind := ofA.kind
  parent := ofA.parent
  distinct := distinct_merge h ofA.distinct b
  sees := by
    intro name
    rw [← ofA.sees name]
    cases unbound : (Environment.merge h a b).bindings.find? name with
    | none =>
        obtain ⟨unboundA, -⟩ := (find?_merge_eq_none ofB.distinct).1 unbound
        rw [lookup_of_not_bound unbound, lookup_of_not_bound unboundA]
        rfl
    | some binding =>
        rw [lookup_of_find? unbound, Option.isSome_some]
        cases here : a.bindings.find? name with
        | some x => rw [lookup_of_find? here, Option.isSome_some]
        | none =>
            -- then the other path binds the name
            cases there : b.bindings.find? name with
            | some y =>
                rw [ofA.sees, ← ofB.sees, lookup_of_find? there, Option.isSome_some]
            | none =>
                rw [(find?_merge_eq_none ofB.distinct).2 ⟨here, there⟩] at unbound
                cases unbound

theorem sameNames_narrow (distinct : env.bindings.Distinct) :
    ∀ env' ∈ narrow h env test truthy, SameNames env env' := by
  refine forall_mem_narrow (p := SameNames env) ?_ (fun a b => SameNames.merge)
    ⟨rfl, rfl, distinct, fun _ => rfl⟩
  intro t _ inner name truthy same env' reached
  rw [narrowName_eq] at reached
  split at reached
  case h_1 =>
      cases reached
      exact same
  case h_2 binding seen =>
      split at reached
      · cases reached
        exact same
      · split at reached
        · cases reached
        · cases reached
          exact same.update (by rw [seen, Option.isSome_some]) .assigned

/-! ## Names that narrowing adds -/

/-- A single test binds the name that it asks for, if that holds a value. -/
theorem find?_narrowName_eq_none_iff {subject : String} {type : Ty}
    (narrowed : narrowName h env subject type truthy = some env') :
    env'.bindings.find? name = none ↔
      env.bindings.find? name = none ∧ ¬ (subject = name ∧
        ∃ binding, env.lookup name = some binding ∧ binding.type.isBottom = false) := by
  rw [narrowName_eq] at narrowed
  split at narrowed
  case h_1 unseen =>
      cases narrowed
      refine ⟨fun unbound => ⟨unbound, ?_⟩, And.left⟩
      rintro ⟨rfl, binding, seen, -⟩
      rw [unseen] at seen
      cases seen
  case h_2 binding seen =>
      split at narrowed
      case isTrue empty =>
          cases narrowed
          refine ⟨fun unbound => ⟨unbound, ?_⟩, And.left⟩
          rintro ⟨rfl, other, seen', inhabited⟩
          cases seen.symm.trans seen'
          rw [empty] at inhabited
          cases inhabited
      case isFalse inhabited =>
          split at narrowed
          case isTrue => cases narrowed
          case isFalse =>
              cases narrowed
              rw [update, Assoc.find?_insert]
              by_cases asked : subject = name
              · subst asked
                rw [if_pos rfl]
                exact ⟨fun unbound => absurd unbound (by simp), fun unset =>
                  absurd ⟨rfl, binding, seen, Bool.eq_false_iff.2 inhabited⟩ unset.2⟩
              · simp [asked]

/-- The innermost scope behind two operands, both of which lead there. -/
theorem find?_bind_eq_none_iff {flow : Flow} {next : Environment → Flow} {first : Prop}
    {second : Environment → Prop}
    (ofFirst : ∀ middle, flow = some middle → (middle.bindings.find? name = none ↔
      env.bindings.find? name = none ∧ ¬ first))
    (ofSecond : ∀ middle, flow = some middle → ∀ env', next middle = some env' →
      (env'.bindings.find? name = none ↔ middle.bindings.find? name = none ∧ ¬ second middle))
    (reached : flow.bind next = some env') :
    env'.bindings.find? name = none ↔
      env.bindings.find? name = none ∧ ¬ (first ∨ ∃ middle, flow = some middle ∧ second middle) := by
  obtain ⟨middle, here, there⟩ := Option.bind_eq_some_iff.1 reached
  rw [ofSecond middle here env' there, ofFirst middle here, and_assoc, not_or]
  simp [here]

/-- The innermost scope where two paths meet. -/
theorem find?_mergeFlows_eq_none_iff {first second : Flow} {p q : Prop}
    (distinct : ∀ b ∈ second, b.bindings.Distinct)
    (ofFirst : ∀ a ∈ first, (a.bindings.find? name = none ↔
      env.bindings.find? name = none ∧ ¬ p))
    (ofSecond : ∀ b ∈ second, (b.bindings.find? name = none ↔
      env.bindings.find? name = none ∧ ¬ q))
    (reached : mergeFlows h [first, second] = some env') :
    env'.bindings.find? name = none ↔ env.bindings.find? name = none ∧
      ¬ ((first.isSome = true ∧ p) ∨ (second.isSome = true ∧ q)) := by
  rw [mergeFlows_pair] at reached
  cases first with
  | none =>
      dsimp only at reached
      subst reached
      simpa using ofSecond env' rfl
  | some a =>
      cases second with
      | none =>
          cases reached
          simpa using ofFirst env' rfl
      | some b =>
          cases reached
          rw [find?_merge_eq_none (distinct b rfl), ofFirst a rfl, ofSecond b rfl]
          simp only [Option.isSome_some, true_and, not_or]
          tauto

/-- The innermost scope behind a first operand alone or behind both operands. -/
theorem find?_either_eq_none_iff {first flow : Flow} {next : Environment → Flow} {p q : Prop}
    {r : Environment → Prop} (distinct : ∀ b ∈ flow.bind next, b.bindings.Distinct)
    (ofFirst : ∀ a, first = some a → (a.bindings.find? name = none ↔
      env.bindings.find? name = none ∧ ¬ p))
    (ofFlow : ∀ middle, flow = some middle → (middle.bindings.find? name = none ↔
      env.bindings.find? name = none ∧ ¬ q))
    (ofNext : ∀ middle, flow = some middle → ∀ env', next middle = some env' →
      (env'.bindings.find? name = none ↔ middle.bindings.find? name = none ∧ ¬ r middle))
    (reached : mergeFlows h [first, flow.bind next] = some env') :
    env'.bindings.find? name = none ↔ env.bindings.find? name = none ∧
      ¬ ((first.isSome = true ∧ p) ∨
        ∃ middle, flow = some middle ∧ (next middle).isSome = true ∧ (q ∨ r middle)) := by
  rw [find?_mergeFlows_eq_none_iff distinct ofFirst
    (fun b there => find?_bind_eq_none_iff ofFlow ofNext there) reached]
  cases flow with
  | none => simp
  | some middle => simp

/-- Behind a condition the innermost scope binds what it has bound before, and the names that the
    condition sets. -/
theorem find?_narrow_eq_none_iff (distinct : env.bindings.Distinct) :
    ∀ env' ∈ narrow h env test truthy, (env'.bindings.find? name = none ↔
      env.bindings.find? name = none ∧ ¬ Rebinds h name env test truthy) := by
  have further : ∀ {env : Environment} {left right : Expr} {x y : Bool},
      env.bindings.Distinct →
        ∀ b ∈ (narrow h env left x).bind fun env => narrow h env right y, b.bindings.Distinct := by
    intro env left right x y distinct b reached
    obtain ⟨middle, here, there⟩ := Option.bind_eq_some_iff.1 reached
    exact (sameNames_narrow (sameNames_narrow distinct middle here).distinct b there).distinct
  fun_induction narrow h env test truthy with
  | case1 => simp [Rebinds]
  | case2 => simp
  | case3 env truthy subject loc type loc' =>
      exact fun env' narrowed => find?_narrowName_eq_none_iff narrowed
  | case4 env truthy callee operand loc negates ih =>
      rw [Rebinds, beq_iff_eq.1 negates]
      simpa using ih distinct
  | case5 env truthy callee operand loc other =>
      rw [beq_iff_eq] at other
      simp [Rebinds, other]
  | case6 env left right loc leftTrue ihLeft ihRight =>
      rw [Rebinds, if_pos (by rfl)]
      exact fun env' => find?_bind_eq_none_iff (ihLeft distinct) fun middle here =>
        ihRight middle (sameNames_narrow distinct middle here).distinct
  | case7 env truthy left right loc leftTrue isFalse ihTrue ihFalse ihRight =>
      rw [Bool.not_eq_true] at isFalse
      subst isFalse
      rw [Rebinds, if_neg (by decide)]
      exact fun env' => find?_either_eq_none_iff (further distinct) (ihFalse distinct)
        (ihTrue distinct) fun middle here =>
          ihRight middle (sameNames_narrow distinct middle here).distinct
  | case8 env left right loc leftFalse ihFalse ihTrue ihRight =>
      rw [Rebinds, if_neg (by decide)]
      exact fun env' => find?_either_eq_none_iff (further distinct) (ihTrue distinct)
        (ihFalse distinct) fun middle here =>
          ihRight middle (sameNames_narrow distinct middle here).distinct
  | case9 env truthy left right loc leftFalse isFalse ihLeft ihRight =>
      rw [Bool.not_eq_true] at isFalse
      subst isFalse
      rw [Rebinds, if_pos (by rfl)]
      exact fun env' => find?_bind_eq_none_iff (ihLeft distinct) fun middle here =>
        ihRight middle (sameNames_narrow distinct middle here).distinct
  | case10 test env truthy noLiteral noTest noCall noAnd noOr =>
      have unset : ¬ Rebinds h name env test truthy := by
        unfold Rebinds
        split
        · exact fun _ => noTest _ _ _ _ rfl
        · exact fun _ => noCall _ _ _ rfl
        · rename_i op left right loc
          cases op with
          | and => exact fun _ => noAnd _ _ _ rfl
          | or => exact fun _ => noOr _ _ _ rfl
        · exact id
      simp [unset]

/-- A condition sets only names that are bound. -/
theorem isSome_lookup_of_rebinds (distinct : env.bindings.Distinct)
    (sets : Rebinds h name env test truthy) : (env.lookup name).isSome = true := by
  fun_induction Rebinds h name env test truthy with
  | case1 =>
      obtain ⟨-, binding, seen, -⟩ := sets
      rw [seen, Option.isSome_some]
  | case2 env truthy callee operand loc ih => exact ih distinct sets.2
  | case3 env op left right loc ihLeft ihRight =>
      obtain first | ⟨middle, here, second⟩ := sets
      · exact ihLeft distinct first
      · have same := sameNames_narrow distinct middle here
        rw [← same.sees]
        exact ihRight middle same.distinct second
  | case4 env truthy op left right loc other ihAlone ihBoth ihRight =>
      obtain ⟨-, first⟩ | ⟨middle, here, -, first | second⟩ := sets
      · exact ihAlone distinct first
      · exact ihBoth distinct first
      · have same := sameNames_narrow distinct middle here
        rw [← same.sees]
        exact ihRight middle same.distinct second
  | case5 => exact sets.elim

end Environment

namespace Inference

open Environment

variable {setting : Setting} {call : Caller} {env env' : Environment} {callee : String}
  {loc : Location} {args : List Ty} {test : Expr} {truthy : Bool}

/-- The ways in which a called name is resolved. -/
inductive Route where
  /-- The value of a name of the method itself is called. -/
  | ofLocal
  | generic
  /-- The value of a name further out is called. -/
  | ofGlobal
  /-- A declared type is called that has no methods. -/
  | constructor
  | undefined
  deriving DecidableEq

/-- How a called name is resolved in an environment. -/
def route (setting : Setting) (env : Environment) (callee : String) : Route :=
  if (env.lookupLocal callee).isSome then .ofLocal
  else if setting.table.has callee then .generic
  else if (env.lookup callee).isSome then .ofGlobal
  else if setting.hierarchy.has callee then .constructor
  else .undefined

/-- A call goes the way of the called name. -/
theorem resolveCall_eq_of_route :
    resolveCall setting call callee loc args env =
      match route setting env callee with
      | .ofLocal | .ofGlobal =>
          callValue setting call callee (((env.lookup callee).map (·.type)).getD .bottom) args loc
      | .generic | .constructor =>
          callFunction setting call callee args { callee := callee, loc := loc }
      | .undefined => report [Diagnostic.unbound callee loc] >>= fun _ => pure .bottom := by
  unfold resolveCall callRoute route
  cases own : env.lookupLocal callee with
  | some binding =>
      have seen : env.lookup callee = some binding := by
        unfold lookupLocal at own
        split at own
        · exact lookup_of_find? own
        · cases own
      simp [seen]
  | none =>
      cases generic : setting.table.has callee with
      | true => simp
      | false =>
          cases seen : env.lookup callee with
          | some binding => simp
          | none => cases declared : setting.hierarchy.has callee <;> simp

theorem route_of_bound (inMethod : env.kind = .method)
    (bound : env.bindings.find? callee ≠ none) : route setting env callee = .ofLocal := by
  unfold route lookupLocal
  rw [inMethod, if_pos (Option.isSome_iff_ne_none.2 bound)]

theorem route_of_not_bound (unbound : env.bindings.find? callee = none) :
    route setting env callee =
      if setting.table.has callee then .generic
      else if (env.lookup callee).isSome then .ofGlobal
      else if setting.hierarchy.has callee then .constructor
      else .undefined := by
  have notOwn : env.lookupLocal callee = none := by
    unfold lookupLocal
    split
    · exact unbound
    · rfl
  rw [route, notOwn, if_neg (by decide)]

/-- On the arm of a condition the innermost scope binds the names that it has bound before and
    those that the condition sets. A called name is resolved as before exactly when it is not
    one that is bound further out only and that the condition sets. Otherwise its value is called,
    in place of the generic function of that name or of the value of the global variable. -/
theorem narrow_keeps_route_iff (inMethod : env.kind = .method) (distinct : env.bindings.Distinct)
    (narrowed : env.narrow setting.hierarchy test truthy = some env') (callee : String) :
    (env'.bindings.find? callee = none ↔ env.bindings.find? callee = none ∧
      ¬ Rebinds setting.hierarchy callee env test truthy) ∧
    (route setting env' callee = route setting env callee ↔
      (Rebinds setting.hierarchy callee env test truthy → env.bindings.find? callee ≠ none)) ∧
    (route setting env' callee ≠ route setting env callee →
      route setting env' callee = .ofLocal ∧
      route setting env callee = if setting.table.has callee then .generic else .ofGlobal) := by
  have same := sameNames_narrow distinct env' narrowed
  have binds : env'.bindings.find? callee = none ↔ env.bindings.find? callee = none ∧
      ¬ Rebinds setting.hierarchy callee env test truthy :=
    find?_narrow_eq_none_iff distinct env' narrowed
  have inMethod' : env'.kind = .method := same.kind.trans inMethod
  refine ⟨binds, ?_⟩
  by_cases bound : env.bindings.find? callee = none
  · by_cases sets : Rebinds setting.hierarchy callee env test truthy
    · -- the name has become one of the method itself
      have ofLocal : route setting env' callee = .ofLocal :=
        route_of_bound inMethod' fun unbound => (binds.1 unbound).2 sets
      have before : route setting env callee =
          if setting.table.has callee then .generic else .ofGlobal := by
        rw [route_of_not_bound bound, if_pos (isSome_lookup_of_rebinds distinct sets)]
      refine ⟨iff_of_false ?_ fun kept => kept sets bound, fun _ => ⟨ofLocal, before⟩⟩
      rw [ofLocal, before]
      split <;> exact nofun
    · have kept : route setting env' callee = route setting env callee := by
        rw [route_of_not_bound bound, route_of_not_bound (binds.2 ⟨bound, sets⟩), same.sees]
      exact ⟨iff_of_true kept fun set => absurd set sets, fun differs => absurd kept differs⟩
  · have kept : route setting env' callee = route setting env callee := by
      rw [route_of_bound inMethod bound, route_of_bound inMethod' fun unbound =>
        bound (binds.1 unbound).1]
    exact ⟨iff_of_true kept fun _ => bound, fun differs => absurd kept differs⟩

namespace Examples

/-- A unit with a global variable that has the name of a generic function. -/
def lengthSource : String :=
  "const length = 3;\n" ++
    "function g() \x7b\n" ++
    "  if (length instanceof Int) \x7b\n" ++
    "    return length(\"abc\");\n" ++
    "  \x7d\n" ++
    "\x7d\n" ++
    "g();\n"

/-- The scope of a method with one parameter. -/
def lengthScope (setting : Setting) : Environment where
  bindings := [("x", ⟨.abstract "Number", none, .param⟩)]
  parent := some setting.globals
  kind := .method

/-- The condition `x instanceof Int && !(length instanceof Float)`. -/
def lengthTest : Expr :=
  .logical .and (.isa (.name "x" default) Ty.int default)
    (.call "!" [.isa (.name "length" default) Ty.float default] default) default

theorem narrow_keeps_route_iff_length :
    ∃ unit env', compile lengthSource "length.tpr" = .ok unit ∧
      (lengthScope (unit.setting {})).kind = .method ∧
      (lengthScope (unit.setting {})).bindings.Distinct ∧
      (lengthScope (unit.setting {})).narrow unit.hierarchy lengthTest true = some env' ∧
      route (unit.setting {}) env' "x" = route (unit.setting {}) (lengthScope (unit.setting {})) "x" ∧
      route (unit.setting {}) (lengthScope (unit.setting {})) "length" = .generic ∧
      route (unit.setting {}) env' "length" = .ofLocal := by
  obtain ⟨unit, compiled, computed⟩ := exists_of_any
    (show (compile lengthSource "length.tpr").toOption.any (fun unit =>
      unit.table.has "length" &&
        ((lengthScope (unit.setting {})).narrow unit.hierarchy lengthTest true).any fun env' =>
          (env'.bindings.find? "length").isSome) = true by decide +kernel)
  simp only [Bool.and_eq_true, Option.any_eq_true] at computed
  obtain ⟨generic, env', narrowed, set⟩ := computed
  have distinct : (lengthScope (unit.setting {})).bindings.Distinct := List.nodup_singleton "x"
  have inSetting : (lengthScope (unit.setting {})).narrow (unit.setting {}).hierarchy lengthTest
      true = some env' := narrowed
  obtain ⟨-, keeps, -⟩ := narrow_keeps_route_iff rfl distinct inSetting "x"
  obtain ⟨-, -, changes⟩ := narrow_keeps_route_iff rfl distinct inSetting "length"
  have before : route (unit.setting {}) (lengthScope (unit.setting {})) "length" = .generic :=
    (route_of_not_bound rfl).trans (if_pos generic)
  have after : route (unit.setting {}) env' "length" = .ofLocal :=
    route_of_bound (sameNames_narrow distinct env' narrowed).kind
      (Option.isSome_iff_ne_none.1 set)
  exact ⟨unit, env', compiled, rfl, distinct, narrowed, keeps.2 fun _ => nofun, before,
    (changes (by rw [before, after]; exact nofun)).1⟩

/-- A condition that only asks for the type of a global variable adds its name to those of the
    method itself: on its arm the variable is called, in place of the generic function. -/
theorem narrow_changes_route :
    ∃ unit env', compile lengthSource "length.tpr" = .ok unit ∧
      narrow unit.hierarchy (.create (some (unit.setting {}).globals) .method)
        (.isa (.name "length" default) Ty.int default) true = some env' ∧
      route (unit.setting {}) (.create (some (unit.setting {}).globals) .method) "length" =
        .generic ∧
      route (unit.setting {}) env' "length" = .ofLocal ∧
      env'.bindings.find? "length" ≠ none := by
  obtain ⟨unit, compiled, computed⟩ := exists_of_any
    (show (compile lengthSource "length.tpr").toOption.any (fun unit =>
      unit.table.has "length" &&
        (narrow unit.hierarchy (.create (some (unit.setting {}).globals) .method)
          (.isa (.name "length" default) Ty.int default) true).any fun env' =>
            (env'.bindings.find? "length").isSome) = true by decide +kernel)
  simp only [Bool.and_eq_true, Option.any_eq_true] at computed
  obtain ⟨generic, env', narrowed, set⟩ := computed
  have bound : env'.bindings.find? "length" ≠ none := Option.isSome_iff_ne_none.1 set
  have distinct : (Environment.create (some (unit.setting {}).globals) .method).bindings.Distinct :=
    List.nodup_nil
  exact ⟨unit, env', compiled, narrowed, (route_of_not_bound rfl).trans (if_pos generic),
    route_of_bound (sameNames_narrow distinct env' narrowed).kind bound, bound⟩

end Examples

end Inference

end Multimethod
