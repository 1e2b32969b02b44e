import Multimethod.Proofs.Inference.Ending
import Multimethod.Proofs.Inference.Jumping
import Multimethod.Proofs.Inference.KindsOfBodies
import Multimethod.Proofs.Inference.Tracing

/-!
# Watching a trace

Something is watched while a body is traced: it holds of the environments that control gets to as
long as nothing happens that may end it. If each single thing that happens to an environment keeps
it, then so does the execution of statements.
-/

namespace Multimethod.Inference

open Environment Multimethod.Lattice

/-- What is watched while a body is traced: what may happen, what then holds of the environments
    that control gets to, and what is known of types and sessions in any case. -/
structure Watch where
  clear : Event → Prop
  good : Environment → Prop
  kind : Ty → Prop
  known : Session → Prop

/-- Whether what is watched holds wherever control gets to before something happens that is not
    clear. -/
def Watch.Along (w : Watch) : List Event → Prop
  | [] => True
  | event :: rest => (∀ env, event = .reach env → w.good env) ∧ (w.clear event → w.Along rest)

/-- Whether what is watched holds of the environments that have left the innermost loop. -/
structure Watch.GoodBody (w : Watch) (body : Body) : Prop where
  of : body.Of w.kind
  breaks : ∀ env ∈ body.breaks, w.good env
  continues : ∀ env ∈ body.continues, w.good env

/-- Whether what is watched holds along a computation, and behind it if all in it is clear. -/
def Watch.Keeps (w : Watch) {α : Type} (m : Traced α) (result : α → Prop) : Prop :=
  ∀ b s, w.GoodBody b → w.known s →
    w.Along (m.events b s) ∧
      ((∀ event ∈ m.events b s, w.clear event) →
        Ends (fun p t => (result p.1 ∧ w.GoodBody p.2) ∧ w.known t) (fun _ _ => True) (m.run b s))

variable {w : Watch} {setting : Setting} {call : Caller} {bad : Fault → Session → Prop} {α β : Type}
  {result : α → Prop} {result' : β → Prop} {env : Environment}

/-! ## Along events -/

theorem Watch.along_append {first second : List Event} (here : w.Along first)
    (there : (∀ event ∈ first, w.clear event) → w.Along second) : w.Along (first ++ second) := by
  induction first with
  | nil => exact there (by simp)
  | cons event rest ih =>
      refine ⟨here.1, fun clear => ih (here.2 clear) fun all => ?_⟩
      exact there (List.forall_mem_cons.2 ⟨clear, all⟩)

theorem Watch.along_ofFlow {flow : Flow} (good : ∀ env ∈ flow, w.good env) :
    w.Along (Event.ofFlow flow) := by
  cases flow with
  | none => trivial
  | some env =>
      refine ⟨fun other same => ?_, fun _ => trivial⟩
      cases same
      exact good env rfl

theorem Watch.along_reach (good : w.good env) : w.Along [.reach env] :=
  ⟨fun _ same => Event.reach.inj same ▸ good, fun _ => trivial⟩

/-- What is watched holds of an environment if everything before control gets to it is clear. -/
theorem Watch.Along.good {before after : List Event}
    (along : w.Along (before ++ .reach env :: after)) (clear : ∀ event ∈ before, w.clear event) :
    w.good env := by
  induction before with
  | nil => exact along.1 env rfl
  | cons event rest ih =>
      rw [List.forall_mem_cons] at clear
      exact ih (along.2 clear.1) clear.2

/-! ## Computations -/

theorem Watch.keeps_pure {x : α} (holds : result x) : w.Keeps (pure x) result :=
  fun _ _ good before => ⟨trivial, fun _ => And.intro (And.intro holds good) before⟩

theorem Watch.Keeps.bind {m : Traced α} {f : α → Traced β} (first : w.Keeps m result)
    (next : ∀ x, result x → w.Keeps (f x) result') : w.Keeps (m >>= f) result' := by
  intro b s good before
  obtain ⟨along, ends⟩ := first b s good before
  match ran : m.run b s with
  | (.error fault, t) =>
      obtain ⟨events, run⟩ := Traced.bind_of_error f ran
      rw [events, run]
      exact ⟨along, fun _ => trivial⟩
  | (.ok (x, inner), t) =>
      obtain ⟨events, run⟩ := Traced.bind_of_ok f ran
      rw [events, run]
      constructor
      · refine Watch.along_append along fun clear => ?_
        obtain ⟨⟨holds, good⟩, after⟩ := (ends clear).of_ok ran
        exact (next x holds inner t good after).1
      · intro clear
        rw [List.forall_mem_append] at clear
        obtain ⟨⟨holds, good⟩, after⟩ := (ends clear.1).of_ok ran
        exact (next x holds inner t good after).2 clear.2

/-- A computation that does not jump keeps what is watched if it keeps the types in a kind. -/
theorem Watch.keeps_quiet {m : Walk α} (sound : Sound w.kind w.kind w.known bad m result)
    (jumpFree : JumpFree m) : w.Keeps (.quiet m) result := by
  intro b s good before
  refine ⟨trivial, fun _ => ?_⟩
  have ends := (sound.ends good.of before).and (jumpFree b s)
  refine ends.imp (fun p t after => ?_) fun _ _ _ => trivial
  obtain ⟨⟨⟨holds, of⟩, known⟩, breaks, continues⟩ := after
  exact ⟨⟨holds, of, breaks ▸ good.breaks, continues ▸ good.continues⟩, known⟩

/-- What is told to happen is clear behind it. -/
theorem Watch.keeps_note {events : List Event} (along : w.Along events) :
    w.Keeps (.note events) fun _ => ∀ event ∈ events, w.clear event :=
  fun _ _ good before => ⟨along, fun clear => And.intro (And.intro clear good) before⟩

theorem Watch.keeps_arm {flow : Flow} {next : Environment → Traced Flow} {result : Flow → Prop}
    (arm : ∀ env ∈ flow, w.Keeps (next env) result) (absent : result none) :
    w.Keeps (.arm flow next) result := by
  cases flow with
  | some env => exact arm env rfl
  | none => exact keeps_pure absent

/-! ## What happens to an environment -/

/-- Whether what is watched is kept by each single thing that happens to an environment. -/
structure Watch.Stable (setting : Setting) (w : Watch) : Prop where
  closed : Closed setting w.kind
  of : ∀ env, w.good env → env.Of w.kind
  narrow : ∀ test truthy env, (∀ t ∈ Expr.types test, w.kind t) → w.good env →
    ∀ next ∈ env.narrow setting.hierarchy test truthy, w.good next
  convert : ∀ value target call loc, w.kind value → w.kind target →
    isSubtype setting.hierarchy (convertChecked setting.hierarchy value target call loc).1 target =
      true
  assign : ∀ env target value (declared : Option Ty), w.good env → w.kind value →
    (∀ type ∈ declared, w.kind type ∧ w.clear (.declare env target type)) →
    (∀ d ∈ declared.or ((env.lookupLocal target).bind (·.declared)),
      isSubtype setting.hierarchy value d = true) →
    w.good (env.update target value .assigned
      (declared.or ((env.lookupLocal target).bind (·.declared))))
  iterate : ∀ env target element, w.good env → w.kind element →
    w.clear (.iterate env target element) → w.good (env.update target element .assigned none)
  meet : ∀ flows, (∀ flow ∈ flows, ∀ env ∈ flow, w.good env) → w.clear (.meet flows) →
    ∀ env ∈ mergeFlows setting.hierarchy flows, w.good env
  widen : ∀ env histories threshold, w.good env → histories.Of w.kind →
    let next := (widenAll setting.hierarchy env histories threshold).1
    w.clear (.raise env next) → w.good next
  top : ∀ env next, w.good next → w.clear (.raise next (topDivergent env next)) →
    w.good (topDivergent env next)

/-- What is watched holds of the environment of a flow, if there is one. -/
abbrev Watch.GoodFlow (w : Watch) (flow : Flow) : Prop :=
  ∀ env ∈ flow, w.good env

section Stable

variable (stable : w.Stable setting)
include stable

theorem Watch.Stable.keeps_meeting {flows : List Flow} (paths : ∀ flow ∈ flows, w.GoodFlow flow) :
    w.Keeps (.meeting setting.hierarchy flows) w.GoodFlow := by
  intro b s good before
  have merged := stable.meet flows paths
  refine ⟨⟨nofun, fun clear => along_ofFlow (merged clear)⟩, fun clear => ?_⟩
  exact And.intro (And.intro (merged (clear _ List.mem_cons_self)) good) before

theorem Watch.Stable.keeps_evalExpr (answering : Answering w.kind w.known bad call) (expr : Expr)
    (ofTypes : ∀ t ∈ expr.types, w.kind t) (good : w.good env) :
    w.Keeps (.quiet (evalExpr setting call expr env)) w.kind :=
  keeps_quiet (sound_evalExpr answering stable.closed expr ofTypes (stable.of env good))
    (jumpFree_evalExpr expr env)

theorem Watch.Stable.keeps_evalCondition (answering : Answering w.kind w.known bad call)
    (expr : Expr) (ofTypes : ∀ t ∈ expr.types, w.kind t) (good : w.good env) :
    w.Keeps (.quiet (evalCondition setting call expr env)) w.kind :=
  keeps_quiet (sound_evalCondition answering stable.closed expr ofTypes (stable.of env good))
    (jumpFree_evalCondition expr env)

/-! ## Loops -/

theorem Watch.Stable.keeps_onScratch {pass : Traced Flow} (keeps : w.Keeps pass w.GoodFlow) :
    w.Keeps (.onScratch pass) w.GoodFlow := by
  intro b s good before
  have start : w.GoodBody Body.start :=
    ⟨stable.closed.of_start.of, by simp [Body.start], by simp [Body.start]⟩
  obtain ⟨along, ends⟩ := keeps Body.start s start before
  refine ⟨along, fun clear => ?_⟩
  have ends := ends clear
  change Ends _ _ (onScratch pass.run b s)
  rw [onScratch_run]
  rcases ran : pass.run Body.start s with ⟨fault | ⟨behind, inner⟩, t⟩
  · trivial
  · obtain ⟨⟨ofBehind, -⟩, known⟩ := ends.of_ok ran
    exact And.intro (And.intro ofBehind good) known

omit stable in
theorem Watch.keeps_raise {env next : Environment}
    (good : w.clear (.raise env next) → w.good next) :
    w.Keeps (.note [.raise env next]) fun _ => w.good next := by
  intro b s before known
  refine ⟨⟨nofun, fun _ => trivial⟩, fun clear => ?_⟩
  exact And.intro (And.intro (good (clear _ List.mem_cons_self)) before) known

theorem Watch.Stable.keeps_attempt {pass : Environment → Traced Flow}
    (keeps : ∀ env, w.good env → w.Keeps (pass env) w.GoodFlow) {histories : Histories}
    (taken : histories.Of w.kind) {head : Environment} (good : w.good head)
    {again : Environment → Histories → Traced Environment}
    (rest : ∀ next histories, w.good next → histories.Of w.kind →
      w.Keeps (again next histories) w.good) :
    w.Keeps (.attempt setting pass histories head again) w.good := by
  refine (stable.keeps_onScratch (keeps head good)).bind fun behind ofBehind => ?_
  have paths : ∀ flow ∈ [some head, behind], w.GoodFlow flow := by
    simpa [Watch.GoodFlow] using ⟨good, ofBehind⟩
  refine (stable.keeps_meeting paths).bind fun joined ofJoined => ?_
  have ofJoined : w.good (joined.getD head) := by
    cases joined with
    | none => exact good
    | some env => exact ofJoined env rfl
  dsimp only
  split
  · exact keeps_pure good
  · refine (keeps_raise (stable.widen _ _ _ ofJoined taken)).bind fun _ ofNext => ?_
    exact rest _ _ ofNext (of_widenAll stable.closed (stable.of _ ofJoined) taken _).2

theorem Watch.Stable.keeps_headAtRest {pass : Environment → Traced Flow}
    (keeps : ∀ env, w.good env → w.Keeps (pass env) w.GoodFlow) (left : Nat) {histories : Histories}
    (taken : histories.Of w.kind) {head : Environment} (good : w.good head) :
    w.Keeps (.headAtRest setting pass left histories head) w.good := by
  induction left generalizing histories head with
  | zero =>
      refine stable.keeps_attempt keeps taken good fun next _ ofNext _ => ?_
      exact (keeps_raise (stable.top _ _ ofNext)).bind fun _ ofTop => keeps_pure ofTop
  | succ left ih =>
      exact stable.keeps_attempt keeps taken good fun next histories ofNext taken => ih taken ofNext

omit stable in
theorem Watch.keeps_recordPass {pass : Traced Flow} (keeps : w.Keeps pass w.GoodFlow) :
    w.Keeps (.recordPass pass) fun breaks => ∀ env ∈ breaks, w.good env := by
  intro b s good before
  have empty : w.GoodBody { b with breaks := [], continues := [] } :=
    ⟨{ good.of with breaks := by simp, continues := by simp }, by simp, by simp⟩
  obtain ⟨along, ends⟩ := keeps _ s empty before
  refine ⟨along, fun clear => ?_⟩
  have ends := ends clear
  change Ends _ _ ((pass.run { b with breaks := [], continues := [] } >>= fun p =>
    pure (p.2.breaks, { p.2 with breaks := b.breaks, continues := b.continues })) s)
  refine Ends.bind ends fun p t _ after => ?_
  obtain ⟨⟨-, inner⟩, known⟩ := after
  refine And.intro (And.intro inner.breaks ⟨?_, good.breaks, good.continues⟩) known
  exact { inner.of with breaks := good.of.breaks, continues := good.of.continues }

theorem Watch.Stable.keeps_runLoop {pass : Environment → Traced Flow} {exit : Environment → Flow}
    (keeps : ∀ env, w.good env → w.Keeps (pass env) w.GoodFlow)
    (leaves : ∀ env, w.good env → w.GoodFlow (exit env)) (good : w.good env) :
    w.Keeps (.runLoop setting pass exit env) w.GoodFlow := by
  have nothing : Histories.Of w.kind [] := by simp [Histories.Of]
  refine (stable.keeps_headAtRest keeps _ nothing good).bind fun head ofHead => ?_
  refine (keeps_recordPass (keeps head ofHead)).bind fun breaks ofBreaks => ?_
  refine (keeps_note (along_ofFlow (leaves head ofHead))).bind fun _ _ => ?_
  refine stable.keeps_meeting (List.forall_mem_cons.2 ⟨leaves head ofHead, ?_⟩)
  simpa [Watch.GoodFlow] using ofBreaks

theorem Watch.Stable.keeps_beforeUpdate {behind : Flow} (good : w.GoodFlow behind) :
    w.Keeps (.beforeUpdate setting behind) w.GoodFlow := by
  have read : w.Keeps (.quiet get) w.GoodBody :=
    fun b s good before => ⟨trivial, fun _ => And.intro (And.intro good good) before⟩
  refine read.bind fun body ofBody => ?_
  refine stable.keeps_meeting (List.forall_mem_cons.2 ⟨good, ?_⟩)
  simpa [Watch.GoodFlow] using ofBody.continues

theorem Watch.Stable.keeps_whilePass (answering : Answering w.kind w.known bad call) {test : Expr}
    (ofTest : ∀ t ∈ test.types, w.kind t) {body update : Environment → Traced Flow}
    (keepsBody : ∀ env, w.good env → w.Keeps (body env) w.GoodFlow)
    (keepsUpdate : ∀ env, w.good env → w.Keeps (update env) w.GoodFlow) (good : w.good env) :
    w.Keeps (.whilePass setting call test body update env) w.GoodFlow := by
  refine (keeps_note (along_reach good)).bind fun _ _ => ?_
  refine (stable.keeps_evalCondition answering test ofTest good).bind fun _ _ => ?_
  have inside := stable.narrow test true env ofTest good
  refine (keeps_arm (fun next reached => keepsBody next (inside next reached)) nofun).bind
    fun behind ofBehind => ?_
  refine (stable.keeps_beforeUpdate ofBehind).bind fun flow ofFlow => ?_
  exact keeps_arm (fun next reached => keepsUpdate next (ofFlow next reached)) nofun

theorem Watch.Stable.keeps_forEachPass {target : String} {element : Ty} (ofElement : w.kind element)
    {body : Environment → Traced Flow}
    (keepsBody : ∀ env, w.good env → w.Keeps (body env) w.GoodFlow) (good : w.good env) :
    w.Keeps (.forEachPass setting target element body env) w.GoodFlow := by
  have begins : w.Along [.reach env, .iterate env target element] :=
    ⟨fun other same => (Event.reach.inj same) ▸ good, fun _ => ⟨nofun, fun _ => trivial⟩⟩
  refine (keeps_note begins).bind fun _ clear => ?_
  have ofBody := stable.iterate env target element good ofElement (clear _ (by simp))
  exact (keepsBody _ ofBody).bind fun behind ofBehind => stable.keeps_beforeUpdate ofBehind

/-! ## Statements -/

/-- What a value is converted to is below the declared type. -/
theorem Watch.Stable.convertedTo {value : Ty} (ofValue : w.kind value) {declared : Option Ty}
    (ofDeclared : ∀ d ∈ declared, w.kind d) :
    w.kind (convertedTo setting.hierarchy value declared) ∧
      ∀ d ∈ declared,
        isSubtype setting.hierarchy (Inference.convertedTo setting.hierarchy value declared) d =
          true := by
  refine ⟨stable.closed.convertedTo ofValue ofDeclared, fun d member => ?_⟩
  cases member
  rw [← convertChecked_fst setting.hierarchy value d "" default]
  exact stable.convert value d _ _ ofValue (ofDeclared d rfl)

theorem Watch.Stable.keeps_execAssign (good : w.good env) (target : String) {value : Ty}
    (ofValue : w.kind value) {declared : Option Ty}
    (written : ∀ type ∈ declared, w.kind type ∧ w.clear (.declare env target type))
    (loc : Location) :
    w.Keeps (.quiet (execAssign setting env target value declared loc)) w.GoodFlow := by
  have ofDeclared : ∀ d ∈ declared.or ((env.lookupLocal target).bind (·.declared)), w.kind d := by
    intro d member
    rw [Option.mem_def, Option.or_eq_some_iff] at member
    rcases member with new | ⟨-, held⟩
    · exact (written d new).1
    · exact (stable.of env good).declared held
  have assigns : Sound w.kind w.kind w.known (fun _ _ => True)
      (execAssign setting env target value declared loc) w.GoodFlow := by
    obtain ⟨ofType, below⟩ := stable.convertedTo ofValue ofDeclared
    refine (sound_convertDeclared value _ loc).bind ?_
    rintro _ rfl
    refine .pure fun next reached => ?_
    cases reached
    exact stable.assign env target _ declared good ofType written below
  exact keeps_quiet assigns ((jumpFree_convertDeclared value _ loc).bind fun _ => .pure _)

theorem Watch.Stable.keeps_execJump (context : BodyContext) (jump : Jump) (good : w.good env)
    (loc : Location) : w.Keeps (.quiet (execJump context jump env loc)) w.GoodFlow := by
  intro b s body before
  refine ⟨trivial, fun _ => ?_⟩
  unfold execJump
  split
  · trivial
  · have last : ∀ envs : List Environment, (∀ e ∈ envs, w.good e) → ∀ e ∈ envs ++ [env], w.good e :=
      fun envs all => List.forall_mem_append.2 ⟨all, by simpa using good⟩
    have ofLast : ∀ envs : List Environment, (∀ e ∈ envs, e.Of w.kind) →
        ∀ e ∈ envs ++ [env], e.Of w.kind :=
      fun envs all => List.forall_mem_append.2 ⟨all, by simpa using stable.of env good⟩
    cases jump with
    | leave =>
        refine And.intro (And.intro nofun ?_) before
        exact ⟨{ body.of with breaks := ofLast _ body.of.breaks }, last _ body.breaks,
          body.continues⟩
    | next =>
        refine And.intro (And.intro nofun ?_) before
        exact ⟨{ body.of with continues := ofLast _ body.of.continues }, body.breaks,
          last _ body.continues⟩

section Runs

variable (answering : Answering w.kind w.known bad call)
include answering

set_option linter.unusedSectionVars false in
mutual

theorem Watch.Stable.keeps_traceStmt {context : BodyContext}
    (expected : ∀ d ∈ context.expected, w.kind d) (stmt : Stmt)
    (ofTypes : ∀ t ∈ stmt.types, w.kind t) {env : Environment} (good : w.good env) :
    w.Keeps (traceStmt setting call context stmt env) w.GoodFlow := by
  have goes : w.GoodFlow (some env) := by
    rintro _ ⟨⟩
    exact good
  match stmt with
  | .assign target value declared loc =>
      simp only [traceStmt]
      simp only [Stmt.types, List.forall_mem_append, Option.mem_toList] at ofTypes
      refine (stable.keeps_evalExpr answering value ofTypes.1 good).bind fun type ofType => ?_
      have along : w.Along (declared.toList.map (.declare env target)) := by
        cases declared with
        | none => trivial
        | some type => exact ⟨nofun, fun _ => trivial⟩
      refine (keeps_note along).bind fun _ clear => ?_
      refine stable.keeps_execAssign good target ofType (fun type member => ?_) loc
      exact ⟨ofTypes.2 type member, clear _ (List.mem_map_of_mem (Option.mem_toList.2 member))⟩
  | .fieldAssign object field value loc =>
      simp only [traceStmt]
      simp only [Stmt.types, List.forall_mem_append] at ofTypes
      refine (stable.keeps_evalExpr answering object ofTypes.1 good).bind fun type ofType => ?_
      refine (stable.keeps_evalExpr answering value ofTypes.2 good).bind fun other ofOther => ?_
      split
      · have attaches : ∀ site, Sound w.kind w.kind w.known bad
            (attach (setFieldFrames setting.hierarchy site type other)) fun _ => True :=
          fun site => sound_attach fun frame => of_mem_setFieldFrames stable.closed ofType ofOther
        exact (keeps_quiet (attaches _) (jumpFree_attach _)).bind fun _ _ => keeps_pure goes
      · exact keeps_pure goes
  | .expr expr loc =>
      simp only [traceStmt]
      exact (stable.keeps_evalExpr answering expr ofTypes good).bind fun _ _ => keeps_pure goes
  | .ret value loc =>
      simp only [traceStmt]
      have returns : ∀ type, w.kind type → w.Keeps (do
          .quiet (addReturn setting context type loc)
          pure (none : Flow)) w.GoodFlow := by
        intro type ofType
        have adds : Sound w.kind w.kind w.known bad _ _ :=
          sound_addReturn (stable.closed.collecting expected) ofType loc
        exact (keeps_quiet adds (jumpFree_addReturn context type loc)).bind fun _ _ =>
          keeps_pure nofun
      cases value with
      | some expr => exact (stable.keeps_evalExpr answering expr ofTypes good).bind returns
      | none => exact (keeps_pure stable.closed.nothing).bind returns
  | .raise value loc =>
      simp only [traceStmt]
      exact (stable.keeps_evalExpr answering value ofTypes good).bind fun _ _ => keeps_pure nofun
  | .branch test consequent alternate loc =>
      simp only [traceStmt]
      simp only [Stmt.types, List.forall_mem_append] at ofTypes
      obtain ⟨⟨ofTest, ofFirst⟩, ofSecond⟩ := ofTypes
      refine (stable.keeps_evalCondition answering test ofTest good).bind fun _ _ => ?_
      have narrowed := fun truthy => stable.narrow test truthy env ofTest good
      refine (keeps_arm (fun next reached => Watch.Stable.keeps_traceBlock expected consequent
        ofFirst (narrowed true next reached)) nofun).bind fun first ofFirst => ?_
      refine (keeps_arm (fun next reached => Watch.Stable.keeps_traceBlock expected alternate
        ofSecond (narrowed false next reached)) nofun).bind fun second ofSecond => ?_
      exact stable.keeps_meeting (by simpa [Watch.GoodFlow] using ⟨ofFirst, ofSecond⟩)
  | .loop test body update loc =>
      rw [traceStmt]
      simp only [Stmt.types, List.forall_mem_append] at ofTypes
      obtain ⟨⟨ofTest, ofBody⟩, ofUpdate⟩ := ofTypes
      have inside : ∀ d ∈ context.enterLoop.expected, w.kind d := expected
      refine stable.keeps_runLoop (fun head ofHead => ?_)
        (fun head => stable.narrow test false head ofTest) good
      exact stable.keeps_whilePass answering ofTest
        (fun env => Watch.Stable.keeps_traceBlock inside body ofBody)
        (fun env => Watch.Stable.keeps_traceBlock inside update ofUpdate) ofHead
  | .forEach target iterable body loc =>
      rw [traceStmt]
      simp only [Stmt.types, List.forall_mem_append] at ofTypes
      refine (stable.keeps_evalExpr answering iterable ofTypes.1 good).bind fun type ofType => ?_
      split
      · exact keeps_pure goes
      · have ofArgs : ∀ a ∈ [type, Ty.int], w.kind a := by simp [ofType, stable.closed.int]
        refine (keeps_quiet (sound_callFunction answering stable.closed "getindex" ofArgs loc)
          (jumpFree_callFunction _ _ _)).bind fun element ofElement => ?_
        split
        · exact keeps_pure goes
        · have inside : ∀ d ∈ context.enterLoop.expected, w.kind d := expected
          refine stable.keeps_runLoop (fun head ofHead => ?_) (fun head ofHead => ?_) good
          · exact stable.keeps_forEachPass ofElement
              (fun env => Watch.Stable.keeps_traceBlock inside body ofTypes.2) ofHead
          · rintro _ ⟨⟩
            exact ofHead
  | .jump jump loc =>
      rw [traceStmt]
      exact stable.keeps_execJump context jump good loc

theorem Watch.Stable.keeps_traceBlock {context : BodyContext}
    (expected : ∀ d ∈ context.expected, w.kind d) (stmts : List Stmt)
    (ofTypes : ∀ t ∈ Stmt.allTypes stmts, w.kind t) {env : Environment} (good : w.good env) :
    w.Keeps (traceBlock setting call context stmts env) w.GoodFlow := by
  match stmts with
  | [] =>
      rw [traceBlock]
      refine (keeps_note (along_reach good)).bind fun _ _ => keeps_pure ?_
      rintro _ ⟨⟩
      exact good
  | stmt :: rest =>
      rw [traceBlock]
      simp only [Stmt.allTypes, List.forall_mem_append] at ofTypes
      refine (keeps_note (along_reach good)).bind fun _ _ => ?_
      refine (Watch.Stable.keeps_traceStmt expected stmt ofTypes.1 good).bind fun flow ofFlow => ?_
      exact keeps_arm (fun next reached => Watch.Stable.keeps_traceBlock expected rest ofTypes.2
        (ofFlow next reached)) nofun

end

end Runs

end Stable

end Multimethod.Inference
