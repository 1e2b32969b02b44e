import Multimethod.Inference.Interpret
import Multimethod.Proofs.Inference.Lockstep

/-!
# What a body is built from

The analysis of a body touches the session only through the calls it makes. The frame of every
call becomes a child of the body, and all its other children are made on the spot. No diagnostic
of the body itself tells that dispatch rejected a call. Whatever is known of a session together
with the frames made so far is therefore kept by a whole pass over a dispatch case if it is kept
by every call.
-/

namespace Multimethod

/-- Whether a frame is made on the spot: it has no children, it re-enters no call, and it is
    finished. -/
structure Frame.Local (frame : Frame) : Prop where
  children : frame.children = []
  origin : frame.origin ≠ .recursive
  settled : frame.Settled True

namespace Inference

open Dispatch Multimethod.Lattice

/-! ## Diagnostics that do not come of dispatch -/

section Diagnostics

variable {h : Hierarchy} {d : Diagnostic}

theorem noDispatch_unbound (name : String) (loc : Location) :
    ¬ (Diagnostic.unbound name loc).IsDispatch := by
  simp [Diagnostic.IsDispatch, Diagnostic.unbound]

theorem noDispatch_noField (site : CallSite) (args : List Ty) (object : Ty) :
    ¬ (Diagnostic.noField site args object).IsDispatch := by
  simp [Diagnostic.IsDispatch, Diagnostic.noField]

theorem noDispatch_builtinMisuse (call message : String) (loc : Location) :
    ¬ (Diagnostic.builtinMisuse call message loc).IsDispatch := by
  simp [Diagnostic.IsDispatch, Diagnostic.builtinMisuse]

theorem noDispatch_noConversion (source target : Ty) (call : String) (loc : Location) :
    ¬ (Diagnostic.noConversion source target call loc).IsDispatch := by
  simp [Diagnostic.IsDispatch, Diagnostic.noConversion]

theorem noDispatch_nonBoolean (type : Ty) (loc : Location) :
    ¬ (Diagnostic.nonBoolean type loc).IsDispatch := by
  simp [Diagnostic.IsDispatch, Diagnostic.nonBoolean]

theorem noDispatch_convertChecked (value target : Ty) (call : String) (loc : Location) :
    ∀ d ∈ (convertChecked h value target call loc).2, ¬ d.IsDispatch := by
  unfold convertChecked
  split
  · simp
  · simpa using noDispatch_noConversion value target call loc

theorem noDispatch_convertIntrinsic (site : CallSite) (args : List Ty) :
    ∀ d ∈ (convertIntrinsic h site args).2, ¬ d.IsDispatch := by
  unfold convertIntrinsic
  split
  · split
    · exact noDispatch_convertChecked _ _ _ _
    · simp
  · simp

theorem noDispatch_boundErrors (params : List TypeParam) (bindings : Assoc Ty) (call : String)
    (loc : Location) : ∀ d ∈ boundErrors h params bindings call loc, ¬ d.IsDispatch := by
  intro d member
  obtain ⟨param, -, found⟩ := List.mem_filterMap.1 member
  split at found
  · split at found
    · cases found
    · cases found
      exact noDispatch_noConversion _ _ _ _
  · cases found

theorem noDispatch_argumentErrors (bindings : Assoc Ty) (call : String) (loc : Location)
    (fields args : List Ty) :
    ∀ errors ∈ argumentErrors h bindings call loc fields args, ∀ d ∈ errors, ¬ d.IsDispatch := by
  induction fields generalizing args with
  | nil => simp [argumentErrors]
  | cons field fields ih =>
      cases args with
      | nil => simp [argumentErrors]
      | cons arg args =>
          intro errors found
          rw [argumentErrors] at found
          dsimp only at found
          split at found
          · cases found
            exact noDispatch_convertChecked _ _ _ _
          · exact ih args errors found

theorem noDispatch_constructInstance (site : CallSite) (name : String) (args : List Ty) :
    ∀ d ∈ (constructInstance h site name args).2, ¬ d.IsDispatch := by
  unfold constructInstance
  dsimp only
  split
  · split
    · split
      · exact noDispatch_argumentErrors _ _ _ _ _ _ ‹_›
      · simp
    · exact noDispatch_boundErrors _ _ _ _
  · simpa using noDispatch_builtinMisuse _ _ _

mutual

theorem noDispatch_resolveField (site : CallSite) (args : List Ty) (object : Ty) :
    ∀ d ∈ (resolveField h site args object).2, ¬ d.IsDispatch := by
  match object with
  | .any | .bottom => simp [resolveField]
  | .typeVar name bound =>
      rw [resolveField]
      exact noDispatch_resolveField site args bound
  | .union ms =>
      rw [resolveField]
      exact noDispatch_resolveEach site args ms
  | .concrete name ps =>
      rw [resolveField]
      unfold structField
      dsimp only
      split
      · simpa using noDispatch_builtinMisuse _ _ _
      · split
        · simp
        · simpa using noDispatch_noField site args _
  | .abstract name =>
      rw [resolveField]
      unfold inheritedField
      dsimp only
      split
      · simpa using noDispatch_builtinMisuse _ _ _
      · split
        · simpa using noDispatch_noField site args _
        · simp

theorem noDispatch_resolveEach (site : CallSite) (args : List Ty) (objects : List Ty) :
    ∀ d ∈ (resolveEach h site args objects).flatMap (·.2), ¬ d.IsDispatch := by
  match objects with
  | [] => simp [resolveEach]
  | object :: objects =>
      rw [resolveEach, List.flatMap_cons]
      exact List.forall_mem_append.2
        ⟨noDispatch_resolveField site args object, noDispatch_resolveEach site args objects⟩

end

theorem local_fieldFrame (site : CallSite) (args : List Ty) (result : Ty × List Diagnostic)
    (none : ∀ d ∈ result.2, ¬ d.IsDispatch) : (fieldFrame site args result).Local where
  children := rfl
  origin := by simp [fieldFrame, Frame.start]
  settled := by
    refine Frame.settled_of_noDispatch ?_ (by simp [fieldFrame, Frame.start]) none
    unfold fieldFrame
    dsimp only
    split
    · exact .inl rfl
    · exact .inr rfl

end Diagnostics

/-! ## Bodies -/

/-- Computations that consist of calls, each of which gives the body a child, of steps that
    change neither the session nor, except for frames made on the spot, the children, and of jumps
    that have no loop to leave. What they report of the body itself does not come of dispatch. Who
    answers the calls is left open. -/
inductive Built : {α : Type} → (Caller → Walk α) → Prop where
  | step {α : Type} {f : Body → α × Body}
      (keeps : ∀ b, (f b).2.children = b.children ∧ (f b).2.errors = b.errors) :
      Built fun _ => modifyGet f
  | report {errors : List Diagnostic} (none : ∀ d ∈ errors, ¬ d.IsDispatch) :
      Built fun _ => report errors
  | stray {α : Type} (jump : Jump) (loc : Location) :
      Built fun _ => (throw (.malformed (.strayJump jump.keyword) (some loc)) : Walk α)
  | bind {α β : Type} {m : Caller → Walk α} {f : α → Caller → Walk β} (first : Built m)
      (next : ∀ x, Built (f x)) : Built fun call => m call >>= fun x => f x call
  | attach {frames : List Frame} (made : ∀ f ∈ frames, f.Local) : Built fun _ => attach frames
  | call {α : Type} {callee : String} {args : List Ty} {loc : Location}
      {next : Frame → Caller → Walk α} (rest : ∀ frame, Built (next frame)) :
      Built fun call => do
        let frame ← call callee args { callee := callee, loc := loc }
        attach [frame]
        next frame call
  | onScratch {pass : Caller → Walk Flow} (scratch : Built pass) :
      Built fun call => onScratch (pass call)

variable {setting : Setting} {call : Caller} {α β : Type}

theorem Built.pure (x : α) : Built fun _ => (pure x : Walk α) :=
  .step (f := fun b => (x, b)) fun _ => ⟨rfl, rfl⟩

/-- Going on behind an arm that control may not get to. -/
theorem Built.arm {flow : Flow} {f : Environment → Caller → Walk α} {x : α}
    {k : α → Caller → Walk β} (arm : ∀ env, Built (f env)) (next : ∀ a, Built (k a)) :
    Built fun call =>
      (match flow with
        | some env => f env call >>= fun a => k a call
        | none => Pure.pure x >>= fun a => k a call) := by
  cases flow with
  | some env => exact .bind (arm env) next
  | none => exact .bind (.pure x) next

/-- Reporting one diagnostic that does not come of dispatch. -/
theorem built_report {d : Diagnostic} (none : ¬ d.IsDispatch) : Built fun _ => report [d] :=
  .report (by simpa using none)

/-! ## Calls -/

theorem local_noMethodFrame (site : CallSite) (args : List Ty) :
    (noMethodFrame site args).Local where
  children := rfl
  origin := by simp [noMethodFrame, Frame.start]
  settled := by
    refine ⟨.inr rfl, by simp [noMethodFrame, Frame.start], fun d member _ => ?_⟩
    cases List.mem_singleton.1 member
    exact ⟨rfl, rfl, rfl, rfl, rfl, fun _ => rfl⟩

theorem local_ambiguousFrame (site : CallSite) (args : List Ty) (candidates : List Method) :
    (ambiguousFrame site args candidates).Local where
  children := rfl
  origin := by simp [ambiguousFrame, Frame.start]
  settled := by
    refine ⟨.inr rfl, by simp [ambiguousFrame, Frame.start], fun d member _ => ?_⟩
    cases List.mem_singleton.1 member
    exact ⟨rfl, rfl, rfl, rfl, rfl, fun _ => rfl⟩

/-- The frame of a dispatch case, if dispatch rejects it. -/
def rejection (setting : Setting) (callee : String) (site : CallSite) (args : List Ty) :
    Option Frame :=
  match lookup setting.hierarchy setting.table callee args with
  | .matched _ => none
  | .noMethod => some (noMethodFrame site args)
  | .ambiguous candidates => some (ambiguousFrame site args candidates)

section Rejection

variable {callee : String} {args : List Ty} {site : CallSite} {frame : Frame}

theorem unionCaseFrames_eq : unionCaseFrames setting callee args site =
    (Ty.combinations args).filterMap (rejection setting callee site) :=
  rfl

theorem local_of_rejection (rejected : rejection setting callee site args = some frame) :
    frame.Local := by
  unfold rejection at rejected
  split at rejected
  · cases rejected
  · cases rejected
    exact local_noMethodFrame site args
  · cases rejected
    exact local_ambiguousFrame site args _

theorem matched_of_rejection (accepted : rejection setting callee site args = none) :
    ∃ found, lookup setting.hierarchy setting.table callee args = .matched found := by
  unfold rejection at accepted
  split at accepted
  · exact ⟨_, ‹_›⟩
  · cases accepted
  · cases accepted

theorem local_of_mem_unionCaseFrames
    (member : frame ∈ unionCaseFrames setting callee args site) : frame.Local := by
  obtain ⟨choice, -, rejected⟩ := List.mem_filterMap.1 member
  exact local_of_rejection rejected

end Rejection

theorem built_callCases (callee : String) (loc : Location) (cases : List (List Ty))
    (result : Ty) (accepted : Bool) :
    Built fun call => callCases setting call callee { callee := callee, loc := loc } cases result
      accepted := by
  induction cases generalizing result accepted with
  | nil => exact .pure (result, accepted)
  | cons args rest ih => exact .call fun frame => ih _ _

theorem built_callFunction (callee : String) (args : List Ty) (loc : Location) :
    Built fun call => callFunction setting call callee args { callee := callee, loc := loc } := by
  refine .bind (built_callCases callee loc _ _ _) ?_
  rintro ⟨result, accepted⟩
  dsimp only
  split
  · exact .bind (.attach fun _ => local_of_mem_unionCaseFrames) fun _ => .pure result
  · exact .pure result

theorem built_callValue (callee : String) (value : Ty) (args : List Ty) (loc : Location) :
    Built fun call => callValue setting call callee value args loc := by
  unfold callValue
  have misuse : Built fun _ => (do
      report [Diagnostic.builtinMisuse (renderCall callee none args)
        s!"{callee}::{value.render} is not callable" loc]
      pure Ty.bottom) :=
    .bind (built_report (noDispatch_builtinMisuse _ _ _)) fun _ => .pure Ty.bottom
  dsimp only
  split
  · exact .pure Ty.any
  · exact .pure Ty.any
  · split
    · exact built_callFunction _ args loc
    · exact misuse
  · exact misuse

theorem built_resolveCall (callee : String) (loc : Location) (args : List Ty)
    (env : Environment) : Built fun call => resolveCall setting call callee loc args env := by
  unfold resolveCall
  cases callRoute setting env callee with
  | value type => exact built_callValue callee type args loc
  | generic => exact built_callFunction callee args loc
  | undefined => exact .bind (built_report (noDispatch_unbound _ _)) fun _ => .pure Ty.bottom

/-! ## Expressions -/

theorem local_of_mem_getFieldFrames {h : Hierarchy} {site : CallSite} {object : Ty}
    {frame : Frame} (member : frame ∈ getFieldFrames h site object) : frame.Local := by
  obtain ⟨type, -, rfl⟩ := List.mem_map.1 member
  exact local_fieldFrame _ _ _ (noDispatch_resolveField _ _ _)

theorem built_checkCondition (type : Ty) (loc : Location) :
    Built fun _ => checkCondition setting type loc := by
  unfold checkCondition
  split
  · exact built_report (noDispatch_nonBoolean _ _)
  · exact .pure ()

theorem built_evalName (env : Environment) (name : String) (loc : Location) :
    Built fun _ => evalName setting env name loc := by
  unfold evalName
  split
  · exact .pure _
  · split
    · exact .pure _
    · split
      · exact .pure _
      · exact .bind (built_report (noDispatch_unbound _ _)) fun _ => .pure Ty.bottom

mutual

theorem built_evalExpr (expr : Expr) (env : Environment) :
    Built fun call => evalExpr setting call expr env := by
  match expr with
  | .literal type value loc =>
      simp only [evalExpr]
      exact .pure type
  | .name name loc =>
      simp only [evalExpr]
      exact built_evalName env name loc
  | .call callee args loc =>
      simp only [evalExpr]
      refine .bind (built_evalAll args env) fun types => ?_
      split
      · exact .pure Ty.bottom
      · exact built_resolveCall callee loc types env
  | .field object field loc =>
      simp only [evalExpr]
      refine .bind (built_evalExpr object env) fun type => ?_
      split
      · exact .pure Ty.bottom
      · exact .bind (.attach fun _ => local_of_mem_getFieldFrames) fun _ => .pure _
  | .isa subject test loc =>
      simp only [evalExpr]
      exact .bind (built_evalExpr subject env) fun type => .pure _
  | .logical op left right loc =>
      simp only [evalExpr]
      refine .bind (built_evalExpr left env) fun type => ?_
      refine .bind (built_checkCondition type left.loc) fun _ => ?_
      split
      · exact .pure Ty.bottom
      · cases env.narrow setting.hierarchy left (op == .and) with
        | none => exact .pure Ty.bool
        | some rightEnv =>
            refine .bind (built_evalExpr right rightEnv) fun rightType => ?_
            exact .bind (built_checkCondition rightType right.loc) fun _ => .pure _
  | .conditional test consequent alternate loc =>
      simp only [evalExpr]
      refine .bind (built_evalExpr test env) fun type => ?_
      refine .bind (built_checkCondition type test.loc) fun _ => ?_
      refine .arm (built_evalExpr consequent) fun first => ?_
      exact .arm (built_evalExpr alternate) fun second => .pure _
  | .vector elements loc =>
      simp only [evalExpr]
      exact .bind (built_evalAll elements env) fun types => .pure _

theorem built_evalAll (exprs : List Expr) (env : Environment) :
    Built fun call => evalAll setting call exprs env := by
  match exprs with
  | [] =>
      simp only [evalAll]
      exact .pure []
  | expr :: exprs =>
      simp only [evalAll]
      refine .bind (built_evalExpr expr env) fun type => ?_
      exact .bind (built_evalAll exprs env) fun types => .pure _

end

theorem built_evalCondition (expr : Expr) (env : Environment) :
    Built fun call => evalCondition setting call expr env := by
  refine .bind (built_evalExpr expr env) fun type => ?_
  exact .bind (built_checkCondition type expr.loc) fun _ => .pure type

/-! ## Statements -/

theorem local_of_mem_setFieldFrames {h : Hierarchy} {site : CallSite} {object value : Ty}
    {frame : Frame} (member : frame ∈ setFieldFrames h site object value) : frame.Local := by
  obtain ⟨type, -, rfl⟩ := List.mem_map.1 member
  unfold setFieldFrame
  dsimp only
  split
  · exact local_fieldFrame _ _ _ (noDispatch_convertChecked _ _ _ _)
  · exact local_fieldFrame _ _ _ (noDispatch_resolveField _ _ _)

theorem built_convertDeclared (value : Ty) (declared : Option Ty) (loc : Location) :
    Built fun _ => convertDeclared setting value declared loc := by
  unfold convertDeclared
  cases declared with
  | none => exact .pure value
  | some target =>
      dsimp only
      split
      · exact .pure value
      · exact .bind (.report (noDispatch_convertChecked _ _ _ _)) fun _ => .pure _

theorem built_addReturn (context : BodyContext) (value : Ty) (loc : Location) :
    Built fun _ => addReturn setting context value loc := by
  refine .bind (built_convertDeclared value context.expected loc) fun result => ?_
  exact .step fun _ => ⟨rfl, rfl⟩

theorem built_execAssign (env : Environment) (target : String) (value : Ty)
    (declared : Option Ty) (loc : Location) :
    Built fun _ => execAssign setting env target value declared loc :=
  .bind (built_convertDeclared value _ loc) fun _ => .pure _

theorem built_execJump (context : BodyContext) (jump : Jump) (env : Environment)
    (loc : Location) : Built fun _ => execJump context jump env loc := by
  unfold execJump
  split
  · exact .stray jump loc
  · cases jump with
    | leave => exact .bind (.step fun _ => ⟨rfl, rfl⟩) fun _ => .pure none
    | next => exact .bind (.step fun _ => ⟨rfl, rfl⟩) fun _ => .pure none

theorem built_headAtRest {pass : Environment → Caller → Walk Flow}
    (built : ∀ env, Built (pass env)) (left : Nat) (histories : Environment.Histories)
    (head : Environment) :
    Built fun call => headAtRest setting (fun env => pass env call) left histories head := by
  induction left generalizing histories head with
  | zero =>
      unfold headAtRest
      refine .bind (.onScratch (built head)) fun behind => ?_
      dsimp only
      split
      · exact .pure head
      · exact .pure _
  | succ left ih =>
      unfold headAtRest
      refine .bind (.onScratch (built head)) fun behind => ?_
      dsimp only
      split
      · exact .pure head
      · exact ih _ _

theorem built_recordPass {pass : Caller → Walk Flow} (built : Built pass) :
    Built fun call => recordPass (pass call) := by
  -- reading the body and writing it back is one step
  change Built fun call =>
    (modifyGet (fun outer => (outer, { outer with breaks := [], continues := [] })) >>=
      fun outer : Body => pass call >>= fun _ => modifyGet fun inner =>
        (inner.breaks, { inner with breaks := outer.breaks, continues := outer.continues }))
  refine .bind (.step fun _ => ⟨rfl, rfl⟩) fun outer => ?_
  exact .bind built fun _ => .step fun _ => ⟨rfl, rfl⟩

theorem built_runLoop {pass : Environment → Caller → Walk Flow}
    (built : ∀ env, Built (pass env))
    (exit : Environment → Flow) (env : Environment) :
    Built fun call => runLoop setting (fun env => pass env call) exit env := by
  refine .bind (built_headAtRest built _ _ env) fun head => ?_
  exact .bind (built_recordPass (built head)) fun breaks => .pure _

theorem built_beforeUpdate (behind : Flow) : Built fun _ => beforeUpdate setting behind :=
  .bind (.step (f := fun b => (b, b)) fun _ => ⟨rfl, rfl⟩) fun _ => .pure _

/-- A pass over a loop is built if its blocks are. -/
theorem built_loopPass (context : BodyContext) (loop : Loop)
    (blocks : ∀ stmts ∈ loop.blocks, ∀ env,
      Built fun call => execBlock setting call context.enterLoop stmts env) (head : Environment) :
    Built fun call => loop.pass setting call context head := by
  cases loop with
  | whileTrue test body update =>
      refine .bind (built_evalCondition test head) fun _ => ?_
      refine .arm (blocks body (by simp [Loop.blocks])) fun behind => ?_
      refine .bind (built_beforeUpdate behind) fun flow => ?_
      cases flow with
      | some updateEnv => exact blocks update (by simp [Loop.blocks]) updateEnv
      | none => exact .pure none
  | forEach target element body =>
      exact .bind (blocks body (by simp [Loop.blocks]) _) fun behind => built_beforeUpdate behind

theorem built_loopRun (context : BodyContext) (loop : Loop)
    (blocks : ∀ stmts ∈ loop.blocks, ∀ env,
      Built fun call => execBlock setting call context.enterLoop stmts env) (env : Environment) :
    Built fun call => loop.run setting call context env :=
  built_runLoop (built_loopPass context loop blocks) _ env

mutual

theorem built_execStmt (context : BodyContext) (stmt : Stmt) (env : Environment) :
    Built fun call => execStmt setting call context stmt env := by
  match stmt with
  | .assign target value declared loc =>
      simp only [execStmt]
      refine .bind (built_evalExpr value env) fun type => ?_
      exact built_execAssign env target type declared loc
  | .fieldAssign object field value loc =>
      simp only [execStmt]
      refine .bind (built_evalExpr object env) fun objectType => ?_
      refine .bind (built_evalExpr value env) fun valueType => ?_
      split
      · exact .bind (.attach fun _ => local_of_mem_setFieldFrames) fun _ => .pure _
      · exact .pure _
  | .expr expr loc =>
      simp only [execStmt]
      exact .bind (built_evalExpr expr env) fun _ => .pure _
  | .ret (some expr) loc =>
      simp only [execStmt]
      refine .bind (built_evalExpr expr env) fun type => ?_
      exact .bind (built_addReturn context type loc) fun _ => .pure none
  | .ret none loc =>
      simp only [execStmt]
      refine .bind (.pure _) fun type => ?_
      exact .bind (built_addReturn context type loc) fun _ => .pure none
  | .raise value loc =>
      simp only [execStmt]
      exact .bind (built_evalExpr value env) fun _ => .pure none
  | .branch test consequent alternate loc =>
      simp only [execStmt]
      refine .bind (built_evalCondition test env) fun _ => ?_
      refine .arm (built_execBlock context consequent) fun first => ?_
      exact .arm (built_execBlock context alternate) fun second => .pure _
  | .loop test body update loc =>
      simp only [execStmt_loop]
      refine built_loopRun context (.whileTrue test body update) ?_ env
      simp only [Loop.blocks, List.forall_mem_cons]
      exact ⟨built_execBlock _ body, built_execBlock _ update, by simp⟩
  | .forEach target iterable body loc =>
      simp only [execStmt_forEach]
      refine .bind (built_evalExpr iterable env) fun type => ?_
      split
      · exact .pure _
      · refine .bind (built_callFunction "getindex" _ loc) fun element => ?_
        split
        · exact .pure _
        · refine built_loopRun context (.forEach target element body) ?_ env
          simp only [Loop.blocks, List.forall_mem_cons]
          exact ⟨built_execBlock _ body, by simp⟩
  | .jump jump loc =>
      simp only [execStmt]
      exact built_execJump context jump env loc

theorem built_execBlock (context : BodyContext) (stmts : List Stmt) (env : Environment) :
    Built fun call => execBlock setting call context stmts env := by
  match stmts with
  | [] =>
      simp only [execBlock]
      exact .pure _
  | stmt :: rest =>
      simp only [execBlock]
      refine .bind (built_execStmt context stmt env) fun flow => ?_
      cases flow with
      | some next => exact built_execBlock context rest next
      | none => exact .pure none

end

/-! ## Dispatch cases -/

theorem built_runBody (found : Match) (args : List Ty) (stmts : List Stmt) :
    Built fun call => runBody setting call found args stmts := by
  refine .bind (.step fun _ => ⟨rfl, rfl⟩) fun _ => ?_
  refine .bind (built_execBlock _ stmts _) fun flow => ?_
  have returned : Built fun _ => (do return (← get).returns : Walk Ty) :=
    .bind (.step (f := fun b => (b, b)) fun _ => ⟨rfl, rfl⟩) fun _ => .pure _
  cases flow with
  | some _ => exact .bind (built_addReturn _ _ _) fun _ => returned
  | none => exact returned

theorem built_invoke (site : CallSite) (found : Match) (args : List Ty) :
    Built fun call => invoke setting call site found args := by
  unfold invoke
  dsimp only
  cases found.method.intrinsic with
  | some intrinsic =>
      cases intrinsic with
      | construct =>
          exact .bind (.report (noDispatch_constructInstance _ _ _)) fun _ => .pure _
      | convert => exact .bind (.report (noDispatch_convertIntrinsic _ _)) fun _ => .pure _
  | none =>
      cases found.method.body with
      | none => exact .pure _
      | some stmts => exact built_runBody found args stmts

theorem built_invokeAll (site : CallSite) (args : List Ty) (found : List Match) (result : Ty) :
    Built fun call => invokeAll setting call site args found result := by
  induction found generalizing result with
  | nil => exact .pure result
  | cons first rest ih => exact .bind (built_invoke site first args) fun type => ih _

/-! ## What a pass keeps -/

/-- What a computation leaves known, if `frames` were made before it: on success together with
    the frames that it made. -/
def Leaves (known : Session → List Frame → Prop) (frames : List Frame) (made : α → List Frame) :
    Except Fault α × Session → Prop
  | (.ok x, s) => known s (made x ++ frames)
  | (.error _, s) => known s frames

/-- What is known of a session and of the frames made so far, and kept by every call. -/
structure KeptBy (call : Caller) (known : Session → List Frame → Prop) : Prop where
  fewer : ∀ s fs gs, known s gs → fs ⊆ gs → known s fs
  made : ∀ s fs f, known s fs → f.Local → known s (f :: fs)
  called : ∀ s fs callee args loc, known s fs →
    Leaves known fs (fun f => [f]) (call callee args { callee := callee, loc := loc } s)

variable {known : Session → List Frame → Prop} {s : Session} {frames : List Frame}

theorem Leaves.bind (made : α → List Frame) {made' : β → List Frame} {m : Infer α}
    {f : α → Infer β} (first : Leaves known frames made (m s))
    (next : ∀ x t, m s = (.ok x, t) → known t (made x ++ frames) →
      Leaves known frames made' (f x t)) : Leaves known frames made' ((m >>= f) s) := by
  change Leaves known frames made' (ExceptT.bindCont f (m s).1 (m s).2)
  cases ran : m s with
  | mk result t =>
      rw [ran] at first
      cases result with
      | ok x => exact next x t ran first
      | error fault => exact first

theorem KeptBy.all_made (kept : KeptBy call known) {more : List Frame}
    (before : known s frames) (made : ∀ f ∈ more, f.Local) : known s (more ++ frames) := by
  induction more with
  | nil => exact before
  | cons f more ih =>
      refine kept.made _ _ _ (ih fun g hg => made g (List.mem_cons_of_mem _ hg)) ?_
      exact made f List.mem_cons_self

/-- Frames may be forgotten. -/
theorem KeptBy.leaves_fewer (kept : KeptBy call known) {more : List Frame}
    {made : α → List Frame} (made' : α → List Frame) {outcome : Except Fault α × Session}
    (left : Leaves known more made outcome) (fewer : frames ⊆ more)
    (each : ∀ x, made' x ++ frames ⊆ made x ++ more) : Leaves known frames made' outcome := by
  match outcome with
  | (.ok x, t) => exact kept.fewer t _ _ left (each x)
  | (.error _, t) => exact kept.fewer t _ _ left fewer

/-- A computation of a body keeps what every call keeps. -/
theorem Built.leaves (kept : KeptBy call known) {m : Caller → Walk α} (built : Built m) :
    ∀ (b : Body) (s : Session) (frames : List Frame), known s (b.children ++ frames) →
      Leaves known frames (fun p => p.2.children) (m call b s) := by
  induction built with
  | @step _ f keeps =>
      intro b s frames before
      change known s ((f b).2.children ++ frames)
      rw [(keeps b).1]
      exact before
  | report none =>
      intro b s frames before
      exact before
  | stray jump loc =>
      intro b s frames before
      exact kept.fewer _ _ _ before (List.subset_append_right _ _)
  | bind _ _ first next =>
      intro b s frames before
      exact Leaves.bind _ (first b s frames before) fun p t _ after => next p.1 p.2 t frames after
  | @attach more made =>
      intro b s frames before
      refine kept.fewer _ _ _ (kept.all_made before made) ?_
      intro f member
      rw [List.mem_append]
      rcases List.mem_append.1 member with here | further
      · rcases List.mem_append.1 here with old | new
        · exact Or.inr (List.mem_append_left _ old)
        · exact Or.inl new
      · exact Or.inr (List.mem_append_right _ further)
  | @call _ callee args loc next _ rest =>
      intro b s frames before
      have answered := kept.leaves_fewer (fun f => b.children ++ [f])
        (kept.called s _ callee args loc before) (List.subset_append_right _ _) fun f g member => by
          simpa [or_left_comm, or_assoc] using member
      have lifted : Leaves known frames (fun p : Frame × Body => p.2.children ++ [p.1])
          ((do return (← call callee args { callee := callee, loc := loc }, b)) s) :=
        Leaves.bind _ answered fun f t _ after => after
      refine Leaves.bind _ lifted fun p t _ after => ?_
      exact rest p.1 { p.2 with children := p.2.children ++ [p.1] } t frames after
  | @onScratch pass _ scratch =>
      intro b s frames before
      have ran := kept.leaves_fewer (fun _ => b.children)
        (scratch Body.start s (b.children ++ frames) before) (List.subset_append_right _ _)
        fun p => List.subset_append_right _ _
      have lifted : Leaves known frames (fun p : (Flow × Body) × Body => p.2.children)
          ((do return (← (pass call).run Body.start, b)) s) :=
        Leaves.bind _ ran fun p t _ after => after
      exact Leaves.bind _ lifted fun p t _ after => after

theorem origin_of_dispatchPass {callee : String} {args : List Ty} {site : CallSite} {t : Session}
    {frame : Frame} (done : dispatchPass setting call callee args site s = (.ok frame, t)) :
    frame.origin ≠ .recursive := by
  unfold dispatchPass at done
  cases answer : lookup setting.hierarchy setting.table callee args with
  | noMethod =>
      rw [answer] at done
      cases done
      simp [noMethodFrame, Frame.start]
  | ambiguous candidates =>
      rw [answer] at done
      cases done
      simp [ambiguousFrame, Frame.start]
  | matched found =>
      rw [answer] at done
      obtain ⟨_, _, -, done⟩ := bind_eq_ok done
      cases done
      dsimp only
      split <;> simp

/-- A pass over a dispatch case keeps what every call keeps; the frames made are the children of
    its frame. -/
theorem leaves_dispatchPass (kept : KeptBy call known) (callee : String) (args : List Ty)
    (site : CallSite) (before : known s frames) :
    Leaves known frames Frame.children (dispatchPass setting call callee args site s) := by
  unfold dispatchPass
  cases lookup setting.hierarchy setting.table callee args with
  | noMethod => exact before
  | ambiguous candidates => exact before
  | matched found =>
      refine Leaves.bind (fun p => p.2.children)
        ((built_invokeAll site args found .bottom).leaves kept Body.start s frames before) ?_
      exact fun p t _ after => after

end Inference

end Multimethod
