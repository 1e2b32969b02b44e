import Multimethod.Proofs.Environment.Narrowing
import Multimethod.Proofs.Inference.Probe

/-!
# Names that nothing binds

Every part of an expression is evaluated even where another part has no value, so that all names
that nothing binds are reported at once. There is one exception: where the left operand of `&&` or
`||` has no value, the right one is passed over, and with it the names in it. What evaluation
reports and passes over is followed step by step: one thing after the other reports the names of
both, and passes over what either does.
-/

namespace Multimethod

/-- A name and where it stands. -/
abbrev Mention := String × Location

mutual

/-- The name expressions in an expression, at any depth. -/
def Expr.names : Expr → List Mention
  | literal _ _ _ => []
  | name mentioned loc => [(mentioned, loc)]
  | call _ args _ => allNames args
  | field object _ _ => object.names
  | isa subject _ _ => subject.names
  | logical _ left right _ => left.names ++ right.names
  | conditional test consequent alternate _ =>
      test.names ++ (consequent.names ++ alternate.names)
  | vector elements _ => allNames elements

/-- The name expressions in a list of expressions. -/
def Expr.allNames : List Expr → List Mention
  | [] => []
  | expr :: exprs => expr.names ++ allNames exprs

end

mutual

/-- The names that an expression calls, at any depth. -/
def Expr.calls : Expr → List Mention
  | literal _ _ _ => []
  | name _ _ => []
  | call callee args loc => allCalls args ++ [(callee, loc)]
  | field object _ _ => object.calls
  | isa subject _ _ => subject.calls
  | logical _ left right _ => left.calls ++ right.calls
  | conditional test consequent alternate _ =>
      test.calls ++ (consequent.calls ++ alternate.calls)
  | vector elements _ => allCalls elements

/-- The names that a list of expressions calls. -/
def Expr.allCalls : List Expr → List Mention
  | [] => []
  | expr :: exprs => expr.calls ++ allCalls exprs

end

mutual

/-- Whether an expression has no instance test and no truth value written out, at any depth. -/
def Expr.plain : Expr → Bool
  | literal _ value _ => value.isNone
  | name _ _ => true
  | call _ args _ => allPlain args
  | field object _ _ => object.plain
  | isa _ _ _ => false
  | logical _ left right _ => left.plain && right.plain
  | conditional test consequent alternate _ =>
      test.plain && (consequent.plain && alternate.plain)
  | vector elements _ => allPlain elements

/-- Whether expressions have no instance test and no truth value written out. -/
def Expr.allPlain : List Expr → Bool
  | [] => true
  | expr :: exprs => expr.plain && allPlain exprs

end

/-! ## Conditions that tell nothing -/

namespace Environment

variable {h : Hierarchy} {env : Environment} {test : Expr} {truthy : Bool}

theorem foldl_mergeBinding_self {first entries : Assoc Binding} (merged : Assoc Binding)
    (same : ∀ entry ∈ entries, first.find? entry.1 = some entry.2) :
    entries.foldl (mergeBinding h first) merged = merged := by
  induction entries with
  | nil => rfl
  | cons entry rest ih =>
      rw [List.forall_mem_cons] at same
      have step : mergeBinding h first merged entry = merged := by
        unfold mergeBinding
        rw [same.1]
        exact if_pos (Ty.same_refl _)
      rw [List.foldl_cons, step]
      exact ih same.2

/-- Where both paths are the same, so is what is behind them. -/
theorem merge_self (distinct : env.bindings.Distinct) : merge h env env = env := by
  obtain ⟨bindings, parent, kind⟩ := env
  rw [merge, foldl_mergeBinding_self bindings fun _ member => Assoc.find?_of_mem distinct member]

/-- A condition without instance tests and truth values changes nothing on either arm. -/
theorem narrow_of_plain (distinct : env.bindings.Distinct) (plain : test.plain = true) :
    narrow h env test truthy = some env := by
  have merged : ∀ {env : Environment}, env.bindings.Distinct →
      mergeFlows h [some env, some env] = some env := by
    intro env distinct
    rw [mergeFlows_pair]
    exact congrArg some (merge_self distinct)
  fun_induction narrow h env test truthy with
  | case1 => rfl
  | case2 => cases plain
  | case3 => cases plain
  | case4 env truthy callee operand loc negates ih =>
      rw [Expr.plain, Expr.allPlain, Bool.and_eq_true] at plain
      exact ih distinct plain.1
  | case5 => rfl
  | case6 env left right loc leftTrue ihLeft ihRight =>
      rw [Expr.plain, Bool.and_eq_true] at plain
      rw [show leftTrue = some env from ihLeft distinct plain.1, Option.bind_some]
      exact ihRight env distinct plain.2
  | case7 env truthy left right loc leftTrue isFalse ihTrue ihFalse ihRight =>
      rw [Expr.plain, Bool.and_eq_true] at plain
      rw [ihFalse distinct plain.1, show leftTrue = some env from ihTrue distinct plain.1,
        Option.bind_some, ihRight env distinct plain.2]
      exact merged distinct
  | case8 env left right loc leftFalse ihFalse ihTrue ihRight =>
      rw [Expr.plain, Bool.and_eq_true] at plain
      rw [ihTrue distinct plain.1, show leftFalse = some env from ihFalse distinct plain.1,
        Option.bind_some, ihRight env distinct plain.2]
      exact merged distinct
  | case9 env truthy left right loc leftFalse isFalse ihLeft ihRight =>
      rw [Expr.plain, Bool.and_eq_true] at plain
      rw [show leftFalse = some env from ihLeft distinct plain.1, Option.bind_some]
      exact ihRight env distinct plain.2
  | case10 => rfl

end Environment

namespace Inference

open Dispatch Multimethod.Lattice Environment

variable {setting : Setting} {call : Caller} {env : Environment} {α β : Type} {m : Walk α}
  {f : α → Walk β} {names names' calls calls' passed passed' : List Mention} {n : Mention}
  {before between behind : List Diagnostic}

/-- Whether a name is neither bound nor declared as a type or as a function. -/
structure Unbound (setting : Setting) (env : Environment) (name : String) : Prop where
  binding : env.lookup name = none
  type : setting.hierarchy.typeOf? name = none
  function : setting.table.has name = false

instance (name : String) : Decidable (Unbound setting env name) :=
  decidable_of_iff ((env.lookup name).isNone = true ∧
      (setting.hierarchy.typeOf? name).isNone = true ∧ setting.table.has name = false)
    ⟨fun ⟨binding, type, function⟩ => ⟨Option.isNone_iff_eq_none.1 binding,
        Option.isNone_iff_eq_none.1 type, function⟩,
      fun unbound => ⟨Option.isNone_iff_eq_none.2 unbound.binding,
        Option.isNone_iff_eq_none.2 unbound.type, unbound.function⟩⟩

/-! ## What is passed over -/

/-- What is passed over behind a computation, if that comes to a result. -/
def behindResult (m : Walk α) (next : α → Body → Session → List Mention) (b : Body)
    (s : Session) : List Mention :=
  match m b s with
  | (.ok (x, b), s) => next x b s
  | (.error _, _) => []

mutual

/-- The names that an evaluation passes over: those in the right operand of `&&` and `||` if the
    left one has no value. -/
def passedOver (setting : Setting) (call : Caller) (env : Environment) :
    Expr → Body → Session → List Mention
  | .literal _ _ _ => fun _ _ => []
  | .name _ _ => fun _ _ => []
  | .call _ args _ => allPassedOver setting call env args
  | .field object _ _ => passedOver setting call env object
  | .isa subject _ _ => passedOver setting call env subject
  | .logical _ left right _ => fun b s =>
      passedOver setting call env left b s ++
        behindResult (evalCondition setting call left env) (fun type b s =>
          if type.isBottom then right.names else passedOver setting call env right b s) b s
  | .conditional test consequent alternate _ => fun b s =>
      passedOver setting call env test b s ++
        behindResult (evalCondition setting call test env) (fun _ b s =>
          passedOver setting call env consequent b s ++
            behindResult (evalExpr setting call consequent env) (fun _ =>
              passedOver setting call env alternate) b s) b s
  | .vector elements _ => allPassedOver setting call env elements

/-- The names that the evaluation of a list passes over. -/
def allPassedOver (setting : Setting) (call : Caller) (env : Environment) :
    List Expr → Body → Session → List Mention
  | [] => fun _ _ => []
  | expr :: exprs => fun b s =>
      passedOver setting call env expr b s ++
        behindResult (evalExpr setting call expr env) (fun _ =>
          allPassedOver setting call env exprs) b s

end

/-! ## What is reported -/

/-- What diagnostics say about a name that nothing binds, behind something that mentions `names`,
    passes over some of them, and calls no names but `calls`. -/
structure Reported (n : Mention) (names calls passed : List Mention)
    (before behind : List Diagnostic) : Prop where
  kept : Diagnostic.unbound n.1 n.2 ∈ before → Diagnostic.unbound n.1 n.2 ∈ behind
  recorded : n ∈ names → n ∉ passed → Diagnostic.unbound n.1 n.2 ∈ behind
  only : names.Nodup → n ∉ calls → Diagnostic.unbound n.1 n.2 ∈ behind →
    Diagnostic.unbound n.1 n.2 ∈ before ∨ (n ∈ names ∧ n ∉ passed)

theorem Reported.append (first : Reported n names calls passed before between)
    (second : Reported n names' calls' passed' between behind) (within : passed ⊆ names)
    (within' : passed' ⊆ names') :
    Reported n (names ++ names') (calls ++ calls') (passed ++ passed') before behind where
  kept := fun known => second.kept (first.kept known)
  recorded := by
    intro mentioned reached
    rw [List.mem_append, not_or] at reached
    rcases List.mem_append.1 mentioned with here | there
    · exact second.kept (first.recorded here reached.1)
    · exact second.recorded there reached.2
  only := by
    intro once uncalled known
    rw [List.mem_append, not_or] at uncalled
    obtain ⟨once, once', apart⟩ := List.nodup_append'.1 once
    rw [List.mem_append, List.mem_append, not_or]
    rcases second.only once' uncalled.2 known with known | ⟨there, reached⟩
    · refine (first.only once uncalled.1 known).imp_right fun ⟨here, reached⟩ => ?_
      exact ⟨.inl here, reached, fun passed => apart here (within' passed)⟩
    · exact .inr ⟨.inr there, fun passed => apart (within passed) there, reached⟩

/-- Whether a fault is one that a call has raised. -/
def RaisedByCall (call : Caller) (fault : Fault) (t : Session) : Prop :=
  ∃ callee args site s, call callee args site s = (.error fault, t)

/-- Whether a computation reports of the names that nothing binds what something reports that
    mentions `names`, passes over some of them, and calls no names but `calls`. It fails only where
    a call fails. -/
structure Reports (setting : Setting) (call : Caller) (env : Environment) (m : Walk α)
    (names calls : List Mention) (passed : Body → Session → List Mention) : Prop where
  within : ∀ b s, passed b s ⊆ names
  ends : ∀ b s, Ends (fun p _ => ∀ n : Mention, Unbound setting env n.1 →
    Reported n names calls (passed b s) b.errors p.2.errors) (RaisedByCall call) (m b s)

theorem Reports.bind {passed : Body → Session → List Mention}
    {passed' : α → Body → Session → List Mention}
    (first : Reports setting call env m names calls passed)
    (next : ∀ x, Reports setting call env (f x) names' calls' (passed' x)) :
    Reports setting call env (m >>= f) (names ++ names') (calls ++ calls')
      (fun b s => passed b s ++ behindResult m passed' b s) where
  within := by
    intro b s n passed
    rcases List.mem_append.1 passed with here | there
    · exact List.mem_append_left _ (first.within b s here)
    · unfold behindResult at there
      split at there
      · exact List.mem_append_right _ ((next _).within _ _ there)
      · cases there
  ends := by
    intro b s
    refine Ends.bind (first.ends b s) fun p t ran here => ?_
    have behind : behindResult m passed' b s = passed' p.1 p.2 t := by
      unfold behindResult
      rw [ran]
    rw [behind]
    exact ((next p.1).ends p.2 t).imp (fun q _ there n unbound =>
      (here n unbound).append (there n unbound) (first.within b s) ((next p.1).within p.2 t))
      fun _ _ => id

/-! ## What reports nothing -/

/-- Whether a computation reports no names that nothing binds, and fails only where a call fails. -/
def Silent (call : Caller) (m : Walk α) : Prop :=
  ∀ b s, Ends (fun p _ => ∀ name loc,
    Diagnostic.unbound name loc ∈ p.2.errors ↔ Diagnostic.unbound name loc ∈ b.errors)
    (RaisedByCall call) (m b s)

theorem Silent.pure (x : α) : Silent call (pure x) :=
  fun _ _ _ _ => Iff.rfl

theorem Silent.bind (first : Silent call m) (next : ∀ x, Silent call (f x)) :
    Silent call (m >>= f) := by
  intro b s
  refine Ends.bind (first b s) fun p t _ here => ?_
  exact (next p.1 p.2 t).imp (fun q _ there name loc => (there name loc).trans (here name loc))
    fun _ _ => id

theorem silent_attach (frames : List Frame) : Silent call (attach frames) :=
  fun _ _ _ _ => Iff.rfl

theorem silent_report {d : Diagnostic} (other : d.kind ≠ .undefinedBinding) :
    Silent call (report [d]) := by
  intro b s name loc
  have apart : Diagnostic.unbound name loc ≠ d := by
    rintro rfl
    exact other rfl
  change _ ∈ b.errors ++ [d] ↔ _
  simp [apart]

theorem silent_call (callee : String) (args : List Ty) (site : CallSite) :
    Silent call (liftM (call callee args site) : Walk Frame) := by
  intro b s
  have raised : Ends (fun _ _ => True) (RaisedByCall call) (call callee args site s) := by
    match ran : call callee args site s with
    | (.ok _, _) => trivial
    | (.error _, _) => exact ⟨callee, args, site, s, ran⟩
  exact Ends.bind raised fun _ _ _ _ _ _ => Iff.rfl

theorem silent_callCases (callee : String) (site : CallSite) (cases : List (List Ty))
    (result : Ty) (accepted : Bool) :
    Silent call (callCases setting call callee site cases result accepted) := by
  induction cases generalizing result accepted with
  | nil => exact .pure _
  | cons args rest ih =>
      exact (silent_call callee args site).bind fun frame => (silent_attach _).bind fun _ => ih _ _

theorem silent_callFunction (callee : String) (args : List Ty) (site : CallSite) :
    Silent call (callFunction setting call callee args site) := by
  refine (silent_callCases callee site _ _ _).bind ?_
  rintro ⟨result, accepted⟩
  dsimp only
  split
  · exact (silent_attach _).bind fun _ => .pure result
  · exact .pure result

theorem silent_callValue (callee : String) (value : Ty) (args : List Ty) (loc : Location) :
    Silent call (callValue setting call callee value args loc) := by
  unfold callValue
  have misuse : Silent call (do
      report [Diagnostic.builtinMisuse (renderCall callee none args)
        s!"{callee}::{value.render} is not callable" loc]
      pure Ty.bottom) :=
    (silent_report (by simp [Diagnostic.builtinMisuse])).bind fun _ => .pure Ty.bottom
  dsimp only
  split
  · exact .pure Ty.any
  · exact .pure Ty.any
  · split
    · exact silent_callFunction _ args _
    · exact misuse
  · exact misuse

theorem silent_checkCondition (type : Ty) (loc : Location) :
    Silent call (checkCondition setting type loc) := by
  unfold checkCondition
  split
  · exact silent_report (by simp [Diagnostic.nonBoolean])
  · exact .pure ()

theorem Silent.reports (silent : Silent call m) (calls : List Mention) :
    Reports setting call env m [] calls (fun _ _ => []) where
  within := fun _ _ => List.Subset.refl _
  ends := by
    intro b s
    refine (silent b s).imp (fun p _ same n _ => ?_) fun _ _ => id
    exact ⟨(same n.1 n.2).2, nofun, fun _ _ known => .inl ((same n.1 n.2).1 known)⟩

/-- Going on with something that reports nothing. -/
theorem Reports.silently {passed : Body → Session → List Mention}
    (first : Reports setting call env m names calls passed) (next : ∀ x, Silent call (f x)) :
    Reports setting call env (m >>= f) names calls passed where
  within := first.within
  ends := by
    intro b s
    refine Ends.bind (first.ends b s) fun p t _ here => ?_
    refine (next p.1 p.2 t).imp (fun q _ same n unbound => ?_) fun _ _ => id
    have known := same n.1 n.2
    exact ⟨fun there => known.2 ((here n unbound).kept there),
      fun mentioned reached => known.2 ((here n unbound).recorded mentioned reached),
      fun once uncalled there => (here n unbound).only once uncalled (known.1 there)⟩

/-! ## Names and calls -/

theorem unbound_inj {name other : String} {loc loc' : Location} :
    Diagnostic.unbound name loc = Diagnostic.unbound other loc' ↔ name = other ∧ loc = loc' := by
  constructor
  · intro same
    exact ⟨congrArg Diagnostic.call same, congrArg Diagnostic.loc same⟩
  · rintro ⟨rfl, rfl⟩
    rfl

theorem mem_report_unbound {name : String} {loc : Location} :
    Diagnostic.unbound n.1 n.2 ∈ before ++ [Diagnostic.unbound name loc] ↔
      Diagnostic.unbound n.1 n.2 ∈ before ∨ n = (name, loc) := by
  rw [List.mem_append, List.mem_singleton, unbound_inj, Prod.ext_iff]

theorem reports_evalName (name : String) (loc : Location) :
    Reports setting call env (evalName setting env name loc) [(name, loc)] [] (fun _ _ => []) where
  within := fun _ _ => List.nil_subset _
  ends := by
    intro b s
    have found : ∀ n : Mention, n ≠ (name, loc) →
        Reported n [(name, loc)] [] [] b.errors b.errors := fun n other =>
      ⟨id, fun mentioned => absurd (List.mem_singleton.1 mentioned) other,
        fun _ _ known => .inl known⟩
    unfold evalName
    cases bound : env.lookup name with
    | some binding =>
        refine fun n unbound => found n ?_
        rintro rfl
        rw [unbound.binding] at bound
        cases bound
    | none =>
        cases declared : setting.hierarchy.typeOf? name with
        | some type =>
            refine fun n unbound => found n ?_
            rintro rfl
            rw [unbound.type] at declared
            cases declared
        | none =>
            cases generic : setting.table.has name with
            | true =>
                refine fun n unbound => found n ?_
                rintro rfl
                rw [unbound.function] at generic
                cases generic
            | false =>
                intro n _
                change Reported n _ _ _ b.errors (b.errors ++ [Diagnostic.unbound name loc])
                refine ⟨fun known => mem_report_unbound.2 (.inl known), fun mentioned _ =>
                  mem_report_unbound.2 (.inr (List.mem_singleton.1 mentioned)),
                  fun _ _ known => ?_⟩
                exact (mem_report_unbound.1 known).imp_right fun here =>
                  ⟨List.mem_singleton.2 here, nofun⟩

theorem reports_resolveCall (callee : String) (loc : Location) (args : List Ty) :
    Reports setting call env (resolveCall setting call callee loc args env) [] [(callee, loc)]
      (fun _ _ => []) := by
  unfold resolveCall
  cases callRoute setting env callee with
  | value type => exact (silent_callValue callee type args loc).reports _
  | generic => exact (silent_callFunction callee args _).reports _
  | undefined =>
      refine ⟨fun _ _ => List.Subset.refl _, fun b s n _ => ?_⟩
      change Reported n _ _ _ b.errors (b.errors ++ [Diagnostic.unbound callee loc])
      refine ⟨fun known => mem_report_unbound.2 (.inl known), nofun, fun _ uncalled known => ?_⟩
      exact .inl ((mem_report_unbound.1 known).resolve_right fun here =>
        uncalled (List.mem_singleton.2 here))

/-- Whatever is not evaluated is passed over. -/
theorem reports_skip (x : α) (names calls : List Mention) :
    Reports setting call env (pure x : Walk α) names calls (fun _ _ => names) where
  within := fun _ _ => List.Subset.refl _
  ends := fun _ _ _ _ =>
    ⟨id, fun mentioned reached => absurd mentioned reached, fun _ _ known => .inl known⟩

/-! ## Expressions -/

theorem behindResult_nil (m : Walk α) (b : Body) (s : Session) :
    behindResult m (fun _ _ _ => []) b s = [] := by
  unfold behindResult
  split <;> rfl

theorem Reports.condition {test : Expr} {passed : Body → Session → List Mention}
    (reports : Reports setting call env (evalExpr setting call test env) names calls passed) :
    Reports setting call env (evalCondition setting call test env) names calls passed :=
  reports.silently fun type => (silent_checkCondition type test.loc).bind fun _ => .pure type

/-- Without instance tests and truth values the right operand is evaluated as the left one. -/
theorem evalExpr_logical_of_plain {op : LogicalOp} {left right : Expr} {loc : Location}
    (distinct : env.bindings.Distinct) (plain : left.plain = true) :
    evalExpr setting call (.logical op left right loc) env =
      evalCondition setting call left env >>= fun type =>
        if type.isBottom then pure .bottom
        else evalCondition setting call right env >>= fun rightType =>
          pure (join setting.hierarchy Ty.bool rightType) := by
  simp only [evalExpr, evalCondition, narrow_of_plain distinct plain, bind_assoc, pure_bind]

theorem evalExpr_conditional_of_plain {test consequent alternate : Expr} {loc : Location}
    (distinct : env.bindings.Distinct) (plain : test.plain = true) :
    evalExpr setting call (.conditional test consequent alternate loc) env =
      evalCondition setting call test env >>= fun _ =>
        evalExpr setting call consequent env >>= fun first =>
          evalExpr setting call alternate env >>= fun second =>
            pure (join setting.hierarchy first second) := by
  simp only [evalExpr, evalCondition, narrow_of_plain distinct plain, bind_assoc, pure_bind]

mutual

/-- What an expression reports and passes over. -/
theorem reports_evalExpr (distinct : env.bindings.Distinct) (expr : Expr)
    (plain : expr.plain = true) :
    Reports setting call env (evalExpr setting call expr env) expr.names expr.calls
      (passedOver setting call env expr) := by
  match expr, plain with
  | .literal type value loc, _ =>
      simp only [evalExpr, Expr.names, Expr.calls, passedOver]
      exact (Silent.pure type).reports _
  | .name name loc, _ =>
      simp only [evalExpr, Expr.names, Expr.calls, passedOver]
      exact reports_evalName name loc
  | .call callee args loc, plain =>
      have resolved : ∀ types : List Ty, Reports setting call env
          (if types.any Ty.isBottom then pure .bottom
            else resolveCall setting call callee loc types env) [] [(callee, loc)]
          (fun _ _ => []) := by
        intro types
        split
        · exact (Silent.pure _).reports _
        · exact reports_resolveCall callee loc types
      have all := (reports_evalAll distinct args plain).bind resolved
      simpa only [evalExpr, Expr.names, Expr.calls, passedOver, List.append_nil,
        behindResult_nil] using all
  | .field object field loc, plain =>
      simp only [evalExpr, Expr.names, Expr.calls, passedOver]
      refine (reports_evalExpr distinct object plain).silently fun type => ?_
      split
      · exact .pure Ty.bottom
      · exact (silent_attach _).bind fun _ => .pure _
  | .logical op left right loc, plain =>
      simp only [Expr.plain, Bool.and_eq_true] at plain
      have second : ∀ type : Ty, Reports setting call env
          (if type.isBottom then pure .bottom
            else evalCondition setting call right env >>= fun rightType =>
              pure (join setting.hierarchy Ty.bool rightType)) right.names right.calls
          (fun b s => if type.isBottom then right.names
            else passedOver setting call env right b s) := by
        intro type
        split
        · exact reports_skip _ _ _
        · exact (reports_evalExpr distinct right plain.2).condition.silently fun _ => .pure _
      rw [evalExpr_logical_of_plain distinct plain.1]
      simp only [Expr.names, Expr.calls, passedOver]
      exact (reports_evalExpr distinct left plain.1).condition.bind second
  | .conditional test consequent alternate loc, plain =>
      simp only [Expr.plain, Bool.and_eq_true] at plain
      rw [evalExpr_conditional_of_plain distinct plain.1]
      simp only [Expr.names, Expr.calls, passedOver]
      refine (reports_evalExpr distinct test plain.1).condition.bind fun _ => ?_
      refine (reports_evalExpr distinct consequent plain.2.1).bind fun _ => ?_
      exact (reports_evalExpr distinct alternate plain.2.2).silently fun _ => .pure _
  | .vector elements loc, plain =>
      simp only [evalExpr, Expr.names, Expr.calls, passedOver]
      exact (reports_evalAll distinct elements plain).silently fun _ => .pure _

theorem reports_evalAll (distinct : env.bindings.Distinct) (exprs : List Expr)
    (plain : Expr.allPlain exprs = true) :
    Reports setting call env (evalAll setting call exprs env) (Expr.allNames exprs)
      (Expr.allCalls exprs) (allPassedOver setting call env exprs) := by
  match exprs, plain with
  | [], _ =>
      simp only [evalAll, Expr.allNames, Expr.allCalls, allPassedOver]
      exact (Silent.pure []).reports _
  | expr :: exprs, plain =>
      simp only [Expr.allPlain, Bool.and_eq_true] at plain
      simp only [evalAll, Expr.allNames, Expr.allCalls, allPassedOver]
      refine (reports_evalExpr distinct expr plain.1).bind fun _ => ?_
      exact (reports_evalAll distinct exprs plain.2).silently fun _ => .pure _

end

/-- Evaluation reports every name expression whose name nothing binds, wherever it stands, unless it
    stands in the right operand of `&&` or `||` behind a left operand that has no value. If the
    names of an expression stand in places of their own, no report is due to anything else. Only
    where a call fails does evaluation come to nothing. -/
theorem unbound_recorded_iff {expr : Expr} (distinct : env.bindings.Distinct)
    (plain : expr.plain = true) (b : Body) (s : Session) :
    Ends
      (fun p _ => ∀ n ∈ expr.names, Unbound setting env n.1 →
        (n ∉ passedOver setting call env expr b s →
          Diagnostic.unbound n.1 n.2 ∈ p.2.errors) ∧
        (expr.names.Nodup → n ∉ expr.calls → Diagnostic.unbound n.1 n.2 ∉ b.errors →
          (Diagnostic.unbound n.1 n.2 ∈ p.2.errors ↔
            n ∉ passedOver setting call env expr b s)))
      (RaisedByCall call) (evalExpr setting call expr env b s) := by
  refine ((reports_evalExpr distinct expr plain).ends b s).imp
    (fun p _ reported n mentioned unbound => ?_) fun _ _ => id
  have ofName := reported n unbound
  refine ⟨ofName.recorded mentioned, fun once uncalled fresh => ⟨fun known => ?_,
    ofName.recorded mentioned⟩⟩
  exact ((ofName.only once uncalled known).resolve_left fresh).2

namespace Examples

/-- A program without functions and variables. -/
def bare : Setting where
  hierarchy := numberHierarchy
  table := .empty
  globals := .create none .global
  options := {}

/-- A scope with one truth value. -/
def flagScope : Environment where
  bindings := [("flag", ⟨Ty.bool, none, .param⟩)]
  parent := some bare.globals
  kind := .method

/-- The expression `g([a, b.item], c ? d : flag && e)`. -/
def nestedNames : Expr :=
  .call "g"
    [.vector [.name "a" ⟨"", 1, 3⟩, .field (.name "b" ⟨"", 1, 6⟩) "item" ⟨"", 1, 6⟩] ⟨"", 1, 2⟩,
      .conditional (.name "c" ⟨"", 1, 15⟩) (.name "d" ⟨"", 1, 19⟩)
        (.logical .and (.name "flag" ⟨"", 1, 23⟩) (.name "e" ⟨"", 1, 31⟩) ⟨"", 1, 23⟩)
        ⟨"", 1, 15⟩]
    ⟨"", 1, 0⟩

theorem unbound_recorded_iff_nested :
    flagScope.bindings.Distinct ∧ nestedNames.plain = true ∧
      ∃ type b s,
        evalExpr bare probe nestedNames flagScope .start (.start {}) = (.ok (type, b), s) ∧
        ∀ n ∈ nestedNames.names, n.1 ≠ "flag" → Diagnostic.unbound n.1 n.2 ∈ b.errors := by
  have distinct : flagScope.bindings.Distinct := List.nodup_singleton "flag"
  have reached : passedOver bare probe flagScope nestedNames .start (.start {}) = [] := by
    decide +kernel
  have unbound : ∀ n ∈ nestedNames.names, n.1 ≠ "flag" → Unbound bare flagScope n.1 := by
    decide +kernel
  obtain ⟨⟨type, b⟩, done, -⟩ := exists_of_any
    (show (evalExpr bare probe nestedNames flagScope .start (.start {})).1.toOption.any
      (fun _ => true) = true by decide +kernel)
  have result : evalExpr bare probe nestedNames flagScope .start (.start {}) =
      (.ok (type, b), (evalExpr bare probe nestedNames flagScope .start (.start {})).2) :=
    Prod.ext done rfl
  refine ⟨distinct, rfl, type, b, _, result, fun n mentioned other => ?_⟩
  have reported := (unbound_recorded_iff distinct rfl .start (.start {})).of_ok result n mentioned
  exact (reported (unbound n mentioned other)).1 (reached ▸ List.not_mem_nil)

/-- Where `a` has no value, `a && b` reports `a` only. -/
theorem right_operand_passed_over :
    (Expr.logical .and (.name "a" ⟨"", 1, 0⟩) (.name "b" ⟨"", 1, 5⟩) ⟨"", 1, 0⟩).plain = true ∧
      ("b", ⟨"", 1, 5⟩) ∈
        (Expr.logical .and (.name "a" ⟨"", 1, 0⟩) (.name "b" ⟨"", 1, 5⟩) ⟨"", 1, 0⟩).names ∧
      Unbound bare flagScope "b" ∧
      ((evalExpr bare probe
        (.logical .and (.name "a" ⟨"", 1, 0⟩) (.name "b" ⟨"", 1, 5⟩) ⟨"", 1, 0⟩) flagScope
          .start (.start {})).1.toOption.map fun p => p.2.errors) =
        some [Diagnostic.unbound "a" ⟨"", 1, 0⟩] :=
  ⟨rfl, by decide, by decide +kernel, by decide +kernel⟩

end Examples

end Inference

end Multimethod
