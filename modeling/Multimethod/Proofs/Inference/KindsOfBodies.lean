import Multimethod.Proofs.Inference.KindsOfEnvironments
import Multimethod.Proofs.Inference.Scripts

/-!
# The types in a body

If every call that a body makes with types of a kind is answered by a call tree of the kind, then
the calls that it makes, the environments that it comes to and its own frame are of the kind.
-/

namespace Multimethod.Inference

open Dispatch Multimethod.Lattice Environment

/-- Whether the types that a body has collected are of a kind. -/
structure Body.Of (kind : Ty → Prop) (body : Body) : Prop where
  children : ∀ c ∈ body.children, c.Of kind
  returns : kind body.returns
  breaks : ∀ env ∈ body.breaks, env.Of kind
  continues : ∀ env ∈ body.continues, env.Of kind

/-- Whether the types that a body has collected are of a kind, and those that it returns of a
    narrower one. -/
structure Body.Collects (kind returned : Ty → Prop) (body : Body) : Prop where
  of : body.Of kind
  returned : returned body.returns

/-- Whether a caller answers calls with types of a kind by call trees of the kind, and keeps what
    is known of the session. -/
structure Answering (kind : Ty → Prop) (known : Session → Prop) (bad : Fault → Session → Prop)
    (call : Caller) : Prop where
  answered : ∀ callee args loc s, (∀ a ∈ args, kind a) → known s →
    Ends (fun frame t => frame.Of kind ∧ known t) bad
      (call callee args { callee := callee, loc := loc } s)
  stray : ∀ (jump : Jump) loc s, known s →
    bad (.malformed (.strayJump jump.keyword) (some loc)) s

/-- Whether a computation keeps the types of its body in a kind, and those that it returns in
    another, and comes to something good. -/
def Sound {α : Type} (kind returned : Ty → Prop) (known : Session → Prop)
    (bad : Fault → Session → Prop) (m : Walk α) (good : α → Prop) : Prop :=
  ∀ b s, b.Collects kind returned → known s →
    Ends (fun p t => (good p.1 ∧ p.2.Collects kind returned) ∧ known t) bad (m b s)

variable {kind returned : Ty → Prop} {known : Session → Prop} {bad : Fault → Session → Prop}
  {setting : Setting} {call : Caller} {α β : Type} {m : Walk α} {f : α → Walk β}
  {good : α → Prop} {good' : β → Prop}

theorem Body.Of.collects {body : Body} (of : body.Of kind) : body.Collects kind kind :=
  ⟨of, of.returns⟩

theorem Closed.of_start (closed : Closed setting kind) : Body.start.Collects kind kind :=
  Body.Of.collects
    ⟨by simp [Body.start], closed.bottom, by simp [Body.start], by simp [Body.start]⟩

/-- What a computation ends with that begins with a body of a kind. -/
theorem Sound.ends (sound : Sound kind kind known bad m good) {body : Body} {s : Session}
    (ofBody : body.Of kind) (before : known s) :
    Ends (fun p t => (good p.1 ∧ p.2.Of kind) ∧ known t) bad (m body s) :=
  (sound body s ofBody.collects before).imp
    (fun _ _ after => ⟨⟨after.1.1, after.1.2.of⟩, after.2⟩) fun _ _ stopped => stopped

theorem Sound.pure {x : α} (of : good x) : Sound kind returned known bad (pure x) good :=
  fun _ _ ofBody before => ⟨⟨of, ofBody⟩, before⟩

theorem Sound.bind (first : Sound kind returned known bad m good)
    (next : ∀ x, good x → Sound kind returned known bad (f x) good') :
    Sound kind returned known bad (m >>= f) good' := by
  intro b s ofBody before
  exact Ends.bind (first b s ofBody before) fun p t _ after =>
    next p.1 after.1.1 p.2 t after.1.2 after.2

/-- A step that does nothing but change the body. -/
theorem Sound.step {f : Body → α × Body}
    (of : ∀ b, b.Collects kind returned → good (f b).1 ∧ (f b).2.Collects kind returned) :
    Sound kind returned known bad (modifyGet f) good :=
  fun b _ ofBody before => ⟨of b ofBody, before⟩

theorem sound_get : Sound kind returned known bad (get : Walk Body) (Body.Collects kind returned) :=
  .step (f := fun b => (b, b)) fun _ of => ⟨of, of⟩

/-- Going on behind an arm that control may not get to. -/
theorem Sound.arm {flow : Flow} {f : Environment → Walk α} {x : α} {k : α → Walk β}
    (ofFlow : flow.Of kind)
    (arm : ∀ env : Environment, env.Of kind → Sound kind returned known bad (f env) good)
    (absent : good x) (next : ∀ a, good a → Sound kind returned known bad (k a) good') :
    Sound kind returned known bad
      (match flow with
        | some env => f env >>= k
        | none => Pure.pure x >>= k) good' := by
  cases flow with
  | some env => exact (arm env (ofFlow env rfl)).bind next
  | none => exact (Sound.pure absent).bind next

theorem sound_report (errors : List Diagnostic) :
    Sound kind returned known bad (report errors) fun _ => True :=
  .step (f := fun b => ((), { b with errors := b.errors ++ errors })) fun _ of =>
    ⟨trivial, { of.of with }, of.returned⟩

theorem sound_attach {frames : List Frame} (ofFrames : ∀ f ∈ frames, f.Of kind) :
    Sound kind returned known bad (attach frames) fun _ => True :=
  .step (f := fun b => ((), { b with children := b.children ++ frames })) fun _ of =>
    ⟨trivial, { of.of with children := List.forall_mem_append.2 ⟨of.of.children, ofFrames⟩ },
      of.returned⟩

/-! ## Calls -/

section Calls

variable (answering : Answering kind known bad call) (closed : Closed setting kind)

include answering in
theorem sound_call {next : Frame → Walk β} {callee : String} {args : List Ty} {loc : Location}
    (ofArgs : ∀ a ∈ args, kind a)
    (rest : ∀ frame, frame.Of kind → Sound kind returned known bad (next frame) good') :
    Sound kind returned known bad (do
      let frame ← call callee args { callee := callee, loc := loc }
      attach [frame]
      next frame) good' := by
  intro b s ofBody before
  have lifted : Ends
      (fun (p : Frame × Body) t => (p.1.Of kind ∧ p.2.Collects kind returned) ∧ known t) bad
      ((do return (← call callee args { callee := callee, loc := loc }, b)) s) :=
    Ends.bind (answering.answered callee args loc s ofArgs before) fun frame t _ after =>
      And.intro (And.intro after.1 ofBody) after.2
  refine Ends.bind lifted fun p t _ after => ?_
  exact Sound.bind (sound_attach (by simpa using after.1.1)) (fun _ _ => rest p.1 after.1.1) p.2 t
    after.1.2 after.2

theorem of_mem_combinations (closed : Closed setting kind) {args choice : List Ty}
    (ofArgs : ∀ a ∈ args, kind a) (chosen : choice ∈ Ty.combinations args) :
    ∀ a ∈ choice, kind a := by
  induction args generalizing choice with
  | nil =>
      rw [Ty.combinations, List.mem_singleton] at chosen
      simp [chosen]
  | cons arg args ih =>
      rw [List.forall_mem_cons] at ofArgs
      obtain ⟨m, member, rest⟩ := List.mem_flatMap.1 chosen
      obtain ⟨others, among, rfl⟩ := List.mem_map.1 rest
      exact List.forall_mem_cons.2 ⟨closed.member arg ofArgs.1 m member, ih ofArgs.2 among⟩

theorem of_mem_splitCases (closed : Closed setting kind) {args choice : List Ty} {limit : Nat}
    (ofArgs : ∀ a ∈ args, kind a) (chosen : choice ∈ Ty.splitCases args limit) :
    ∀ a ∈ choice, kind a := by
  unfold Ty.splitCases at chosen
  dsimp only at chosen
  split at chosen
  · rw [List.mem_singleton.1 chosen]
    exact ofArgs
  · exact of_mem_combinations closed ofArgs chosen

theorem of_mem_unionCaseFrames (closed : Closed setting kind) {callee : String} {args : List Ty}
    {site : CallSite} {frame : Frame} (ofArgs : ∀ a ∈ args, kind a)
    (member : frame ∈ unionCaseFrames setting callee args site) : frame.Of kind := by
  obtain ⟨choice, chosen, found⟩ := List.mem_filterMap.1 member
  have ofChoice := of_mem_combinations closed ofArgs chosen
  cases answer : lookup setting.hierarchy setting.table callee choice with
  | matched _ => simp [answer] at found
  | noMethod =>
      simp only [answer, Option.some.injEq] at found
      rw [← found]
      exact Frame.of_iff.2 ⟨ofChoice, closed.bottom, by simp [noMethodFrame, Frame.start]⟩
  | ambiguous candidates =>
      simp only [answer, Option.some.injEq] at found
      rw [← found]
      exact Frame.of_iff.2 ⟨ofChoice, closed.any, by simp [ambiguousFrame, Frame.start]⟩

include answering closed

theorem sound_callCases (callee : String) (loc : Location) {cases : List (List Ty)}
    (ofCases : ∀ args ∈ cases, ∀ a ∈ args, kind a) {result : Ty} (ofResult : kind result)
    (accepted : Bool) :
    Sound kind returned known bad
      (callCases setting call callee { callee := callee, loc := loc } cases result accepted)
      fun p => kind p.1 := by
  induction cases generalizing result accepted with
  | nil => exact .pure ofResult
  | cons args rest ih =>
      rw [List.forall_mem_cons] at ofCases
      exact sound_call answering ofCases.1 fun frame of =>
        ih ofCases.2 (closed.join _ _ ofResult of.ret) _

theorem sound_callFunction (callee : String) {args : List Ty} (ofArgs : ∀ a ∈ args, kind a)
    (loc : Location) :
    Sound kind returned known bad
      (callFunction setting call callee args { callee := callee, loc := loc }) kind := by
  refine (sound_callCases answering closed callee loc
    (fun choice chosen => of_mem_splitCases closed ofArgs chosen) closed.bottom true).bind ?_
  rintro ⟨result, accepted⟩ ofResult
  dsimp only
  split
  · exact (sound_attach fun frame => of_mem_unionCaseFrames closed ofArgs).bind fun _ _ =>
      .pure ofResult
  · exact .pure ofResult

theorem sound_callValue (callee : String) (value : Ty) {args : List Ty}
    (ofArgs : ∀ a ∈ args, kind a) (loc : Location) :
    Sound kind returned known bad (callValue setting call callee value args loc) kind := by
  unfold callValue
  have misuse : Sound kind returned known bad (do
      report [Diagnostic.builtinMisuse (renderCall callee none args)
        s!"{callee}::{value.render} is not callable" loc]
      pure Ty.bottom) kind := (sound_report _).bind fun _ _ => .pure closed.bottom
  dsimp only
  split
  · exact .pure closed.any
  · exact .pure closed.any
  · split
    · exact sound_callFunction answering closed _ ofArgs loc
    · exact misuse
  · exact misuse

theorem sound_resolveCall (callee : String) (loc : Location) {args : List Ty}
    (ofArgs : ∀ a ∈ args, kind a) (env : Environment) :
    Sound kind returned known bad (resolveCall setting call callee loc args env) kind := by
  unfold resolveCall
  cases callRoute setting env callee with
  | value type => exact sound_callValue answering closed callee type ofArgs loc
  | generic => exact sound_callFunction answering closed callee ofArgs loc
  | undefined => exact (sound_report _).bind fun _ _ => .pure closed.bottom

end Calls

/-! ## Expressions -/

theorem of_mem_getFieldFrames (closed : Closed setting kind) {site : CallSite} {object : Ty}
    (of : kind object) {frame : Frame}
    (member : frame ∈ getFieldFrames setting.hierarchy site object) : frame.Of kind := by
  obtain ⟨type, chosen, rfl⟩ := List.mem_map.1 member
  have ofType := closed.member object of type chosen
  refine Frame.of_iff.2 ⟨?_, closed.field site [type] type ofType, ?_⟩
  · simpa [getFieldFrame, fieldFrame, Frame.start] using ofType
  · simp [getFieldFrame, fieldFrame, Frame.start]

theorem sound_checkCondition (type : Ty) (loc : Location) :
    Sound kind returned known bad (checkCondition setting type loc) fun _ => True := by
  unfold checkCondition
  split
  · exact sound_report _
  · exact .pure trivial

theorem sound_evalName (closed : Closed setting kind) {env : Environment} (ofEnv : env.Of kind)
    (name : String) (loc : Location) :
    Sound kind returned known bad (evalName setting env name loc) kind := by
  unfold evalName
  split
  · rename_i binding found
    exact .pure (ofEnv.lookup found)
  · split
    · rename_i type found
      exact .pure (closed.typeOf type (closed.named name type found))
    · split
      · exact .pure closed.function
      · exact (sound_report _).bind fun _ _ => .pure closed.bottom

section Walks

variable (answering : Answering kind known bad call) (closed : Closed setting kind)
include answering closed

set_option linter.unusedSectionVars false in
mutual

theorem sound_evalExpr (expr : Expr) (ofTypes : ∀ t ∈ expr.types, kind t) {env : Environment}
    (ofEnv : env.Of kind) : Sound kind returned known bad (evalExpr setting call expr env) kind := by
  match expr with
  | .literal type value loc =>
      simp only [evalExpr]
      exact .pure (ofTypes type (List.mem_singleton_self type))
  | .name name loc =>
      simp only [evalExpr]
      exact sound_evalName closed ofEnv name loc
  | .call callee args loc =>
      simp only [evalExpr]
      refine (sound_evalAll args ofTypes ofEnv).bind fun types ofArgs => ?_
      split
      · exact .pure closed.bottom
      · exact sound_resolveCall answering closed callee loc ofArgs env
  | .field object field loc =>
      simp only [evalExpr]
      refine (sound_evalExpr object ofTypes ofEnv).bind fun type ofType => ?_
      split
      · exact .pure closed.bottom
      · refine (sound_attach fun frame => of_mem_getFieldFrames closed ofType).bind fun _ _ => ?_
        refine .pure (closed.joinAll (List.forall_mem_map.2 fun frame member => ?_))
        exact (of_mem_getFieldFrames closed ofType member).ret
  | .isa subject test loc =>
      simp only [evalExpr]
      simp only [Expr.types, List.forall_mem_cons] at ofTypes
      refine (sound_evalExpr subject ofTypes.2 ofEnv).bind fun type _ => .pure ?_
      split
      · exact closed.bottom
      · exact closed.bool
  | .logical op left right loc =>
      simp only [evalExpr]
      simp only [Expr.types, List.forall_mem_append] at ofTypes
      refine (sound_evalExpr left ofTypes.1 ofEnv).bind fun type _ => ?_
      refine (sound_checkCondition type left.loc).bind fun _ _ => ?_
      split
      · exact .pure closed.bottom
      · have narrowed := of_narrow closed ofTypes.1 ofEnv (op == .and)
        cases reached : env.narrow setting.hierarchy left (op == .and) with
        | none => exact .pure closed.bool
        | some rightEnv =>
            refine (sound_evalExpr right ofTypes.2 (narrowed _ reached)).bind
              fun rightType ofRight => ?_
            exact (sound_checkCondition rightType right.loc).bind fun _ _ =>
              .pure (closed.join _ _ closed.bool ofRight)
  | .conditional test consequent alternate loc =>
      simp only [evalExpr]
      simp only [Expr.types, List.forall_mem_append] at ofTypes
      obtain ⟨⟨ofTest, ofFirst⟩, ofSecond⟩ := ofTypes
      refine (sound_evalExpr test ofTest ofEnv).bind fun type _ => ?_
      refine (sound_checkCondition type test.loc).bind fun _ _ => ?_
      refine .arm (of_narrow closed ofTest ofEnv true)
        (fun env => sound_evalExpr consequent ofFirst) closed.bottom fun first hfirst => ?_
      refine .arm (of_narrow closed ofTest ofEnv false)
        (fun env => sound_evalExpr alternate ofSecond) closed.bottom fun second hsecond => ?_
      exact .pure (closed.join _ _ hfirst hsecond)
  | .vector elements loc =>
      simp only [evalExpr]
      refine (sound_evalAll elements ofTypes ofEnv).bind fun types ofElements => .pure ?_
      split
      · exact closed.bottom
      · split
        · exact closed.vector _ closed.any
        · exact closed.vector _ (closed.joinAll ofElements)

theorem sound_evalAll (exprs : List Expr) (ofTypes : ∀ t ∈ Expr.allTypes exprs, kind t)
    {env : Environment} (ofEnv : env.Of kind) :
    Sound kind returned known bad (evalAll setting call exprs env) fun types => ∀ t ∈ types, kind t := by
  match exprs with
  | [] =>
      simp only [evalAll]
      exact .pure (by simp)
  | expr :: exprs =>
      simp only [evalAll]
      simp only [Expr.allTypes, List.forall_mem_append] at ofTypes
      refine (sound_evalExpr expr ofTypes.1 ofEnv).bind fun type ofType => ?_
      exact (sound_evalAll exprs ofTypes.2 ofEnv).bind fun types ofRest =>
        .pure (List.forall_mem_cons.2 ⟨ofType, ofRest⟩)

end

theorem sound_evalCondition (expr : Expr) (ofTypes : ∀ t ∈ expr.types, kind t)
    {env : Environment} (ofEnv : env.Of kind) :
    Sound kind returned known bad (evalCondition setting call expr env) kind := by
  refine (sound_evalExpr answering closed expr ofTypes ofEnv).bind fun type ofType => ?_
  exact (sound_checkCondition type expr.loc).bind fun _ _ => .pure ofType

end Walks

/-! ## Statements -/

theorem of_mem_setFieldFrames (closed : Closed setting kind) {site : CallSite} {object value : Ty}
    (of : kind object) (ofValue : kind value) {frame : Frame}
    (member : frame ∈ setFieldFrames setting.hierarchy site object value) : frame.Of kind := by
  obtain ⟨type, chosen, rfl⟩ := List.mem_map.1 member
  have ofType := closed.member object of type chosen
  have ofField := closed.field site [type, value] type ofType
  refine Frame.of_iff.2 ⟨?_, ?_, by simp [setFieldFrame, fieldFrame, Frame.start]⟩
  · simpa [setFieldFrame, fieldFrame, Frame.start] using And.intro ofType ofValue
  · unfold setFieldFrame fieldFrame
    dsimp only
    split
    · exact closed.convertChecked ofValue ofField _ _
    · exact closed.bottom

/-- What a value is converted to where a type may be declared. -/
def convertedTo (h : Hierarchy) (value : Ty) (declared : Option Ty) : Ty :=
  match declared with
  | some target => (convertType h value target).getD .bottom
  | none => value

theorem convertChecked_fst (h : Hierarchy) (value target : Ty) (call : String) (loc : Location) :
    (convertChecked h value target call loc).1 = convertedTo h value (some target) := by
  unfold convertChecked convertedTo
  dsimp only
  cases convertType h value target <;> rfl

theorem Closed.convertedTo (closed : Closed setting kind) {value : Ty} (ofValue : kind value)
    {declared : Option Ty} (ofDeclared : ∀ d ∈ declared, kind d) :
    kind (convertedTo setting.hierarchy value declared) := by
  cases declared with
  | none => exact ofValue
  | some target =>
      rw [← convertChecked_fst setting.hierarchy value target "" default]
      exact closed.convertChecked ofValue (ofDeclared target rfl) _ _

theorem sound_convertDeclared (value : Ty) (declared : Option Ty) (loc : Location) :
    Sound kind returned known bad (convertDeclared setting value declared loc)
      (· = Inference.convertedTo setting.hierarchy value declared) := by
  unfold convertDeclared
  cases declared with
  | none => exact .pure rfl
  | some target =>
      dsimp only
      split
      · rename_i bottom
        exact .pure (by simp [Inference.convertedTo, convertType, bottom])
      · exact (sound_report _).bind fun _ _ => .pure (convertChecked_fst ..)

/-- Whether what a body returns stays of a kind when a value is added, converted to the return type
    if one is declared. -/
structure Collecting (setting : Setting) (kind returned : Ty → Prop) (expected : Option Ty) :
    Prop where
  within : ∀ t, returned t → kind t
  bottom : returned .bottom
  add : ∀ result value, returned result → kind value →
    returned (join setting.hierarchy result (convertedTo setting.hierarchy value expected))

theorem Closed.collecting (closed : Closed setting kind) {expected : Option Ty}
    (ofExpected : ∀ d ∈ expected, kind d) : Collecting setting kind kind expected where
  within _ of := of
  bottom := closed.bottom
  add _ _ of ofValue := closed.join _ _ of (closed.convertedTo ofValue ofExpected)

theorem sound_addReturn {context : BodyContext}
    (collecting : Collecting setting kind returned context.expected) {value : Ty}
    (ofValue : kind value) (loc : Location) :
    Sound kind returned known bad (addReturn setting context value loc) fun _ => True := by
  refine (sound_convertDeclared value context.expected loc).bind ?_
  rintro _ rfl
  refine .step fun b of => ?_
  have added := collecting.add b.returns value of.returned ofValue
  exact ⟨trivial, { of.of with returns := collecting.within _ added }, added⟩

theorem sound_execAssign (closed : Closed setting kind) {env : Environment} (ofEnv : env.Of kind)
    (target : String) {value : Ty} (ofValue : kind value) {declared : Option Ty}
    (ofDeclared : ∀ d ∈ declared, kind d) (loc : Location) :
    Sound kind returned known bad (execAssign setting env target value declared loc) (Flow.Of kind) := by
  have known : ∀ d ∈ declared.or ((env.lookupLocal target).bind (·.declared)), kind d := by
    intro d member
    rw [Option.mem_def, Option.or_eq_some_iff] at member
    rcases member with new | ⟨-, held⟩
    · exact ofDeclared d new
    · exact ofEnv.declared held
  refine (sound_convertDeclared value _ loc).bind ?_
  rintro _ rfl
  exact .pure (of_some (ofEnv.update (closed.convertedTo ofValue known) _ known))

theorem sound_execJump (answering : Answering kind known bad call) (context : BodyContext)
    (jump : Jump) {env : Environment} (ofEnv : env.Of kind) (loc : Location) :
    Sound kind returned known bad (execJump context jump env loc) (Flow.Of kind) := by
  unfold execJump
  split
  · exact fun b s _ before => answering.stray jump loc s before
  · have last : ∀ envs : List Environment, (∀ e ∈ envs, e.Of kind) →
        ∀ e ∈ envs ++ [env], e.Of kind := by
      intro envs of
      exact List.forall_mem_append.2 ⟨of, by simpa using ofEnv⟩
    cases jump with
    | leave =>
        refine Sound.bind (.step fun b of => ?_) fun _ (_ : True) => .pure of_none
        exact ⟨trivial, { of.of with breaks := last _ of.of.breaks }, of.returned⟩
    | next =>
        refine Sound.bind (.step fun b of => ?_) fun _ (_ : True) => .pure of_none
        exact ⟨trivial, { of.of with continues := last _ of.of.continues }, of.returned⟩

theorem sound_onScratch (closed : Closed setting kind) (bottom : returned .bottom)
    {pass : Walk Flow} (scratch : Sound kind returned known bad pass (Flow.Of kind)) :
    Sound kind returned known bad (onScratch pass) (Flow.Of kind) := by
  intro b s ofBody before
  have lifted : Ends
      (fun (p : (Flow × Body) × Body) t =>
        (p.1.1.Of kind ∧ p.2.Collects kind returned) ∧ known t) bad
      ((do return (← pass.run Body.start, b)) s) :=
    Ends.bind (scratch Body.start s ⟨closed.of_start.of, bottom⟩ before) fun p t _ after =>
      And.intro (And.intro after.1.1 ofBody) after.2
  exact Ends.bind lifted fun p t _ after => after

theorem sound_headAtRest (closed : Closed setting kind) (bottom : returned .bottom)
    {pass : Environment → Walk Flow} (sound : ∀ env, env.Of kind → Sound kind returned known bad (pass env) (Flow.Of kind)) (left : Nat)
    {histories : Histories} (taken : histories.Of kind) {head : Environment}
    (ofHead : head.Of kind) :
    Sound kind returned known bad (headAtRest setting pass left histories head)
      (Environment.Of kind) := by
  have joined : ∀ head : Environment, head.Of kind → ∀ behind : Flow, behind.Of kind →
      ((mergeFlows setting.hierarchy [some head, behind]).getD head).Of kind := by
    intro head ofHead behind ofBehind
    have merged : Flow.Of kind (mergeFlows setting.hierarchy [some head, behind]) :=
      of_mergeFlows closed (by simp [of_some ofHead, ofBehind])
    cases reached : mergeFlows setting.hierarchy [some head, behind] with
    | none => exact ofHead
    | some env => exact merged env reached
  induction left generalizing histories head with
  | zero =>
      unfold headAtRest
      refine (sound_onScratch closed bottom (sound head ofHead)).bind fun behind ofBehind => ?_
      obtain ⟨next, -⟩ := of_widenAll closed (joined head ofHead behind ofBehind) taken
        setting.options.wideningThreshold
      dsimp only
      split
      · exact .pure ofHead
      · exact .pure (of_topDivergent closed next head)
  | succ left ih =>
      unfold headAtRest
      refine (sound_onScratch closed bottom (sound head ofHead)).bind fun behind ofBehind => ?_
      obtain ⟨next, taken⟩ := of_widenAll closed (joined head ofHead behind ofBehind) taken
        setting.options.wideningThreshold
      dsimp only
      split
      · exact .pure ofHead
      · exact ih taken next

theorem sound_recordPass {pass : Walk Flow}
    (sound : Sound kind returned known bad pass (Flow.Of kind)) :
    Sound kind returned known bad (recordPass pass) fun breaks => ∀ env ∈ breaks, env.Of kind := by
  -- reading the body and writing it back is one step
  change Sound kind returned known bad
    (modifyGet (fun outer : Body => (outer, { outer with breaks := [], continues := [] })) >>=
      fun outer : Body => pass >>= fun _ => modifyGet fun inner : Body =>
        (inner.breaks, { inner with breaks := outer.breaks, continues := outer.continues })) _
  have emptied : Sound kind returned known bad (modifyGet fun outer : Body =>
      (outer, { outer with breaks := [], continues := [] })) (Body.Collects kind returned) :=
    .step fun b of =>
      ⟨of, { of.of with breaks := by simp, continues := by simp }, of.returned⟩
  refine emptied.bind fun outer ofOuter => sound.bind fun _ _ =>
    .step fun b of => ⟨of.of.breaks, ?_, of.returned⟩
  exact { of.of with breaks := ofOuter.of.breaks, continues := ofOuter.of.continues }

theorem sound_runLoop (closed : Closed setting kind) (bottom : returned .bottom) {pass : Environment → Walk Flow}
    (sound : ∀ env, env.Of kind → Sound kind returned known bad (pass env) (Flow.Of kind))
    {exit : Environment → Flow} (leaves : ∀ env, env.Of kind → (exit env).Of kind)
    {env : Environment} (ofEnv : env.Of kind) :
    Sound kind returned known bad (runLoop setting pass exit env) (Flow.Of kind) := by
  have nothing : Histories.Of kind [] := by simp [Histories.Of]
  refine (sound_headAtRest closed bottom sound _ nothing ofEnv).bind fun head ofHead => ?_
  refine (sound_recordPass (sound head ofHead)).bind fun breaks ofBreaks => .pure ?_
  refine of_mergeFlows closed (List.forall_mem_cons.2 ⟨leaves head ofHead, ?_⟩)
  exact List.forall_mem_map.2 fun e member => of_some (ofBreaks e member)

theorem sound_beforeUpdate (closed : Closed setting kind) {behind : Flow}
    (ofBehind : behind.Of kind) :
    Sound kind returned known bad (beforeUpdate setting behind) (Flow.Of kind) := by
  refine sound_get.bind fun body ofBody => .pure ?_
  refine of_mergeFlows closed (List.forall_mem_cons.2 ⟨ofBehind, ?_⟩)
  exact List.forall_mem_map.2 fun e member => of_some (ofBody.of.continues e member)

/-- The types that a loop names outside of its blocks. -/
def Loop.ownTypes : Loop → List Ty
  | whileTrue test _ _ => test.types
  | forEach _ element _ => [element]

section Statements

variable (answering : Answering kind known bad call) (closed : Closed setting kind)
include answering closed

/-- A pass over a loop keeps to a kind if its blocks do. -/
theorem sound_loopPass {context : BodyContext} (loop : Loop) (ofTypes : ∀ t ∈ loop.ownTypes, kind t)
    (blocks : ∀ stmts ∈ loop.blocks, ∀ env : Environment, env.Of kind →
      Sound kind returned known bad (execBlock setting call context.enterLoop stmts env) (Flow.Of kind))
    {head : Environment} (ofHead : head.Of kind) :
    Sound kind returned known bad (loop.pass setting call context head) (Flow.Of kind) := by
  cases loop with
  | whileTrue test body update =>
      refine (sound_evalCondition answering closed test ofTypes ofHead).bind fun _ _ => ?_
      refine .arm (of_narrow closed ofTypes ofHead true) (blocks body (by simp [Loop.blocks])) of_none
        fun behind ofBehind => ?_
      refine (sound_beforeUpdate closed ofBehind).bind fun flow ofFlow => ?_
      cases flow with
      | some updateEnv =>
          exact blocks update (by simp [Loop.blocks]) updateEnv (ofFlow updateEnv rfl)
      | none => exact .pure of_none
  | forEach target element body =>
      have bound : (head.update target element .assigned none).Of kind :=
        ofHead.update (ofTypes element (List.mem_singleton_self _)) _ (by simp)
      exact (blocks body (by simp [Loop.blocks]) _ bound).bind fun behind ofBehind =>
        sound_beforeUpdate closed ofBehind

omit answering in
theorem of_loopExit (loop : Loop) (ofTypes : ∀ t ∈ loop.ownTypes, kind t) {head : Environment}
    (ofHead : head.Of kind) : (loop.exit setting.hierarchy head).Of kind := by
  cases loop with
  | whileTrue test body update => exact of_narrow closed ofTypes ofHead false
  | forEach target element body => exact of_some ofHead

theorem sound_loopRun (bottom : returned .bottom) {context : BodyContext} (loop : Loop)
    (ofTypes : ∀ t ∈ loop.ownTypes, kind t)
    (blocks : ∀ stmts ∈ loop.blocks, ∀ env : Environment, env.Of kind →
      Sound kind returned known bad (execBlock setting call context.enterLoop stmts env) (Flow.Of kind))
    {env : Environment} (ofEnv : env.Of kind) :
    Sound kind returned known bad (loop.run setting call context env) (Flow.Of kind) :=
  sound_runLoop closed bottom (fun _ => sound_loopPass answering closed loop ofTypes blocks)
    (fun _ => of_loopExit closed loop ofTypes) ofEnv

set_option linter.unusedSectionVars false in
mutual

theorem sound_execStmt {context : BodyContext}
    (collecting : Collecting setting kind returned context.expected) (stmt : Stmt) (ofTypes : ∀ t ∈ stmt.types, kind t) {env : Environment} (ofEnv : env.Of kind) :
    Sound kind returned known bad (execStmt setting call context stmt env) (Flow.Of kind) := by
  match stmt with
  | .assign target value declared loc =>
      simp only [execStmt]
      simp only [Stmt.types, List.forall_mem_append, Option.mem_toList] at ofTypes
      refine (sound_evalExpr answering closed value ofTypes.1 ofEnv).bind fun type ofType => ?_
      exact sound_execAssign closed ofEnv target ofType ofTypes.2 loc
  | .fieldAssign object field value loc =>
      simp only [execStmt]
      simp only [Stmt.types, List.forall_mem_append] at ofTypes
      refine (sound_evalExpr answering closed object ofTypes.1 ofEnv).bind fun type ofType => ?_
      refine (sound_evalExpr answering closed value ofTypes.2 ofEnv).bind fun other ofOther => ?_
      split
      · exact (sound_attach fun frame => of_mem_setFieldFrames closed ofType ofOther).bind
          fun _ _ => .pure (of_some ofEnv)
      · exact .pure (of_some ofEnv)
  | .expr expr loc =>
      simp only [execStmt]
      exact (sound_evalExpr answering closed expr ofTypes ofEnv).bind fun _ _ =>
        .pure (of_some ofEnv)
  | .ret (some expr) loc =>
      simp only [execStmt]
      refine (sound_evalExpr answering closed expr ofTypes ofEnv).bind fun type ofType => ?_
      exact (sound_addReturn collecting ofType loc).bind fun _ _ => .pure of_none
  | .ret none loc =>
      simp only [execStmt]
      refine (Sound.pure closed.nothing).bind fun type ofType => ?_
      exact (sound_addReturn collecting ofType loc).bind fun _ _ => .pure of_none
  | .raise value loc =>
      simp only [execStmt]
      exact (sound_evalExpr answering closed value ofTypes ofEnv).bind fun _ _ => .pure of_none
  | .branch test consequent alternate loc =>
      simp only [execStmt]
      simp only [Stmt.types, List.forall_mem_append] at ofTypes
      obtain ⟨⟨ofTest, ofFirst⟩, ofSecond⟩ := ofTypes
      refine (sound_evalCondition answering closed test ofTest ofEnv).bind fun _ _ => ?_
      refine .arm (of_narrow closed ofTest ofEnv true)
        (fun env => sound_execBlock collecting consequent ofFirst) of_none fun first hfirst => ?_
      refine .arm (of_narrow closed ofTest ofEnv false)
        (fun env => sound_execBlock collecting alternate ofSecond) of_none fun second hsecond => ?_
      exact .pure (of_mergeFlows closed (by simp [hfirst, hsecond]))
  | .loop test body update loc =>
      simp only [execStmt_loop]
      simp only [Stmt.types, List.forall_mem_append] at ofTypes
      obtain ⟨⟨ofTest, ofBody⟩, ofUpdate⟩ := ofTypes
      have inside : Collecting setting kind returned context.enterLoop.expected := collecting
      refine sound_loopRun answering closed collecting.bottom (.whileTrue test body update) ofTest ?_ ofEnv
      simp only [Loop.blocks, List.forall_mem_cons]
      exact ⟨fun env => sound_execBlock inside body ofBody,
        fun env => sound_execBlock inside update ofUpdate, by simp⟩
  | .forEach target iterable body loc =>
      simp only [execStmt_forEach]
      simp only [Stmt.types, List.forall_mem_append] at ofTypes
      refine (sound_evalExpr answering closed iterable ofTypes.1 ofEnv).bind fun type ofType => ?_
      split
      · exact .pure (of_some ofEnv)
      · have ofArgs : ∀ a ∈ [type, Ty.int], kind a := by simp [ofType, closed.int]
        refine (sound_callFunction answering closed "getindex" ofArgs loc).bind
          fun element ofElement => ?_
        split
        · exact .pure (of_some ofEnv)
        · have inside : Collecting setting kind returned context.enterLoop.expected := collecting
          refine sound_loopRun answering closed collecting.bottom (.forEach target element body)
            (by simpa [Loop.ownTypes] using ofElement) ?_ ofEnv
          simp only [Loop.blocks, List.forall_mem_cons]
          exact ⟨fun env => sound_execBlock inside body ofTypes.2, by simp⟩
  | .jump jump loc =>
      simp only [execStmt]
      exact sound_execJump answering context jump ofEnv loc

theorem sound_execBlock {context : BodyContext}
    (collecting : Collecting setting kind returned context.expected) (stmts : List Stmt) (ofTypes : ∀ t ∈ Stmt.allTypes stmts, kind t) {env : Environment}
    (ofEnv : env.Of kind) :
    Sound kind returned known bad (execBlock setting call context stmts env) (Flow.Of kind) := by
  match stmts with
  | [] =>
      simp only [execBlock]
      exact .pure (of_some ofEnv)
  | stmt :: rest =>
      simp only [execBlock]
      simp only [Stmt.allTypes, List.forall_mem_append] at ofTypes
      refine (sound_execStmt collecting stmt ofTypes.1 ofEnv).bind fun flow ofFlow => ?_
      cases flow with
      | some next => exact sound_execBlock collecting rest ofTypes.2 (ofFlow next rfl)
      | none => exact .pure of_none

end

/-! ## Dispatch cases -/

omit answering in
theorem of_methodEnvironment {found : Match} (of : Match.Of kind found) {args : List Ty}
    (ofArgs : ∀ a ∈ args, kind a) : (methodEnvironment setting found args).Of kind := by
  have scope : (Environment.create (some setting.globals) .method).Of kind := by
    refine of_create ?_ rfl
    rintro _ ⟨⟩ name binding seen
    exact closed.globals.lookup seen
  have vars : ∀ (params : List TypeVar) (env : Environment), params ⊆ found.method.typeParams →
      env.Of kind → Environment.Of kind (params.foldl
        (fun env v => env.update v.name
          (Ty.typeOf ((found.bindings.find? v.name).getD v.bound)) .typeVar none) env) := by
    intro params
    induction params with
    | nil => exact fun env _ of => of
    | cons v params ih =>
        intro env among ofEnv
        rw [List.cons_subset] at among
        exact ih _ among.2 (ofEnv.update (closed.typeOf _ (of.vars v among.1)) _ (by simp))
  have params : ∀ (pairs : List (Param × Ty)) (env : Environment),
      (∀ pair ∈ pairs, pair.1 ∈ found.method.params ∧ kind pair.2) → env.Of kind →
      Environment.Of kind (pairs.foldl
        (fun env pair => env.update pair.1.name
          (meet setting.hierarchy pair.2 (pair.1.type.substitute found.bindings).erase) .param none)
        env) := by
    intro pairs
    induction pairs with
    | nil => exact fun env _ of => of
    | cons pair pairs ih =>
        intro env each ofEnv
        rw [List.forall_mem_cons] at each
        have ofType := closed.meet _ _ each.1.2 (of.params pair.1 each.1.1)
        exact ih _ each.2 (ofEnv.update ofType _ (by simp))
  refine params _ _ (fun pair member => ?_) (vars _ _ (List.Subset.refl _) scope)
  obtain ⟨ofParam, ofArg⟩ := List.of_mem_zip member
  refine ⟨ofParam, ?_⟩
  rcases List.mem_append.1 ofArg with given | missing
  · exact ofArgs _ given
  · rw [(List.mem_replicate.1 missing).2]
    exact closed.any

/-- What the body of a method returns is of the kind to which it adds values. -/
theorem sound_runBody {found : Match} (of : Match.Of kind found) {args : List Ty}
    (ofArgs : ∀ a ∈ args, kind a) {stmts : List Stmt} (body : stmts ∈ found.method.body)
    (collecting : Collecting setting kind returned (declaredReturn found)) :
    Sound kind returned known bad (runBody setting call found args stmts) returned := by
  refine Sound.bind (.step fun b ofBody => ?_) fun _ (_ : True) => ?_
  · exact ⟨trivial, ⟨ofBody.of.children, closed.bottom, by simp, by simp⟩, collecting.bottom⟩
  · have collects :
        Collecting setting kind returned (⟨declaredReturn found, false⟩ : BodyContext).expected :=
      collecting
    refine (sound_execBlock answering closed collects stmts (of.method.body stmts body)
      (of_methodEnvironment closed of ofArgs)).bind fun flow _ => ?_
    have gathered : Sound kind returned known bad (do return (← get).returns : Walk Ty) returned :=
      sound_get.bind fun body ofBody => .pure ofBody.returned
    cases flow with
    | some _ => exact (sound_addReturn collects closed.nothing _).bind fun _ _ => gathered
    | none => exact gathered

omit answering in
theorem of_convertIntrinsic {args : List Ty} (ofArgs : ∀ a ∈ args, kind a) (site : CallSite) :
    kind (convertIntrinsic setting.hierarchy site args).1 := by
  unfold convertIntrinsic
  split
  · rename_i typeArg value rest
    split
    · rename_i target ts
      have ofTarget := closed.arg _ _ (ofArgs _ List.mem_cons_self) target List.mem_cons_self
      exact closed.convertChecked (ofArgs value (by simp)) ofTarget _ _
    · exact closed.any
  · exact closed.bottom

theorem sound_invoke (site : CallSite) {found : Match} (of : Match.Of kind found)
    {args : List Ty} (ofArgs : ∀ a ∈ args, kind a) :
    Sound kind kind known bad (invoke setting call site found args) kind := by
  unfold invoke
  dsimp only
  cases found.method.intrinsic with
  | some intrinsic =>
      cases intrinsic with
      | construct =>
          exact (sound_report _).bind fun _ _ => .pure (closed.construct site _ args ofArgs)
      | convert =>
          exact (sound_report _).bind fun _ _ => .pure (of_convertIntrinsic closed ofArgs site)
  | none =>
      cases body : found.method.body with
      | none =>
          refine .pure ?_
          cases declared : declaredReturn found with
          | none => exact closed.any
          | some type => exact of.returns type declared
      | some stmts =>
          exact sound_runBody answering closed of ofArgs body (closed.collecting of.returns)

theorem sound_invokeAll (site : CallSite) {args : List Ty} (ofArgs : ∀ a ∈ args, kind a)
    {found : List Match} (of : ∀ m ∈ found, Match.Of kind m) {result : Ty} (ofResult : kind result) :
    Sound kind kind known bad (invokeAll setting call site args found result) kind := by
  induction found generalizing result with
  | nil => exact .pure ofResult
  | cons first rest ih =>
      rw [List.forall_mem_cons] at of
      exact (sound_invoke answering closed site of.1 ofArgs).bind fun type ofType =>
        ih of.2 (closed.join _ _ ofResult ofType)

/-- The frame of a pass over a dispatch case is of the kind of its arguments. -/
theorem ends_dispatchPass (callee : String) {args : List Ty} (ofArgs : ∀ a ∈ args, kind a)
    (site : CallSite) {s : Session} (before : known s) :
    Ends (fun frame t => frame.Of kind ∧ known t) bad
      (dispatchPass setting call callee args site s) := by
  unfold dispatchPass
  cases answer : lookup setting.hierarchy setting.table callee args with
  | noMethod =>
      exact And.intro (Frame.of_iff.2 ⟨ofArgs, closed.bottom, by simp [noMethodFrame, Frame.start]⟩)
        before
  | ambiguous candidates =>
      exact And.intro (Frame.of_iff.2 ⟨ofArgs, closed.any, by simp [ambiguousFrame, Frame.start]⟩)
        before
  | matched found =>
      have of := closed.matched callee args found ofArgs answer
      refine Ends.bind (sound_invokeAll answering closed site ofArgs of closed.bottom Body.start s
        closed.of_start before) fun p t _ after => ?_
      exact And.intro (Frame.of_iff.2 ⟨ofArgs, after.1.1, after.1.2.of.children⟩) after.2

end Statements

end Multimethod.Inference
