import Multimethod.Proofs.Inference.Heads
import Multimethod.Proofs.Inference.Repeating

/-!
# Loops are recorded above what they come to

The environment with which the recorded pass over a loop begins is above what the last scratch pass
came to. Before the limit it is the one with which this pass began as well. So the recorded pass
comes to the same, if what its calls are answered does not change in between.
-/

namespace Multimethod.Inference

open Environment

variable {setting : Setting} {call : Caller} {kind : Ty → Prop} {room n : Nat}
  {context : BodyContext} {loop : Loop} {pass : Environment → Walk Flow} {env head : Environment}
  {s t : Session} {attempt : Attempt} {behind : Flow} {body : Body}

/-! ## The recorded pass -/

/-- The environment with which a loop is recorded, and what the recorded pass comes to. -/
structure Recording where
  head : Environment
  last : Flow

/-- A body when the recorded pass over a loop begins. -/
def Body.enterLoop (body : Body) : Body :=
  { body with breaks := [], continues := [] }

/-- The environment at the head of a loop when its scratch passes are made. -/
def Loop.headAtRest (setting : Setting) (call : Caller) (context : BodyContext) (loop : Loop)
    (env : Environment) : Walk Environment :=
  Inference.headAtRest setting (loop.pass setting call context)
    (setting.options.maxFixpointIterations - 1) [] env

/-- Makes the scratch passes over a loop and the recorded one. -/
def Loop.recording (setting : Setting) (call : Caller) (context : BodyContext) (loop : Loop)
    (env : Environment) : Walk Recording := do
  let head ← loop.headAtRest setting call context env
  modify Body.enterLoop
  return ⟨head, ← loop.pass setting call context head⟩

/-- Where control is behind a loop, and the body: `outer` with what the recorded pass has left in
    `inner`. -/
def Loop.leave (h : Hierarchy) (loop : Loop) (outer : Body) (head : Environment) (inner : Body) :
    Flow × Body :=
  (mergeFlows h (loop.exit h head :: inner.breaks.map some),
    { inner with breaks := outer.breaks, continues := outer.continues })

theorem Loop.recording_eq (body : Body) (s : Session) :
    loop.recording setting call context env body s =
      (loop.headAtRest setting call context env body >>= fun p =>
        loop.pass setting call context p.1 p.2.enterLoop >>= fun q =>
          pure (⟨p.1, q.1⟩, q.2)) s :=
  rfl

/-- A loop is left behind the recorded pass. -/
theorem Loop.run_eq (body : Body) (s : Session) :
    loop.run setting call context env body s =
      (loop.headAtRest setting call context env body >>= fun p =>
        loop.pass setting call context p.1 p.2.enterLoop >>= fun q =>
          pure (loop.leave setting.hierarchy p.2 p.1 q.2)) s := by
  change (loop.headAtRest setting call context env body >>= fun p =>
    recorded setting (loop.pass setting call context) (loop.exit setting.hierarchy) p.1 p.2) s = _
  rw [bind_run, bind_run]
  cases loop.headAtRest setting call context env body s with
  | mk result t =>
      cases result with
      | error fault => rfl
      | ok p =>
          change ((loop.pass setting call context p.1 p.2.enterLoop >>= fun q =>
            (pure (q.2.breaks, { q.2 with breaks := p.2.breaks, continues := p.2.continues }) :
              Infer (List Environment × Body))) >>= _) t = _
          dsimp only
          rw [bind_run, bind_run, bind_run]
          cases loop.pass setting call context p.1 p.2.enterLoop t with
          | mk result u => cases result <;> rfl

/-- The last scratch pass over a loop, behind `n` others: where it begins, and what it comes to. -/
structure LastScratch (setting : Setting) (pass : Environment → Walk Flow) (env : Environment)
    (s : Session) (n : Nat) (attempt : Attempt) (behind : Flow) (t : Session) : Prop where
  attempts : Attempts setting pass env s n attempt
  last : ∀ m other, Attempts setting pass env s m other → m ≤ n
  passed : ∃ body, pass attempt.head Body.start attempt.session = (.ok (behind, body), t)

/-! ## Types and sessions in a loop -/

/-- Whether a loop can be run from an environment: the types it meets are well-formed and without
    variables, stack and cache are orderly, and `room` more frames are allowed on the stack. -/
structure Loop.Ready (setting : Setting) (room : Nat) (context : BodyContext) (loop : Loop)
    (env : Environment) (s : Session) : Prop where
  expected : ∀ d ∈ context.expected, setting.Ground d
  loop : loop.Of setting.Ground
  env : env.Of setting.Ground
  session : s.Of setting.Ground
  orderly : Orderly setting.options s.cache s.stack
  room : room + s.stack.length = setting.options.maxCallDepth.toNat

/-- The interpreter keeps the types of a session in a kind and the session in order. -/
theorem answering_kept (closed : Closed setting kind)
    (fits : room + s.stack.length = setting.options.maxCallDepth.toNat) :
    Answering kind (fun t => t.Of kind ∧ Kept setting s t) (fun _ _ => True)
      (interpret setting room) where
  answered callee args loc u ofArgs before := by
    have typed := Call.answers_of closed ⟨room, callee, args, loc, u⟩ ofArgs before.1
    have kept := ends_answer_kept fits callee args loc u before.2
    exact (typed.and kept).imp (fun _ _ ⟨⟨frame, after⟩, kept⟩ => ⟨frame, after, kept⟩)
      fun _ _ _ => trivial
  stray _ _ _ _ := trivial

/-- A pass over such a loop comes to an environment of well-formed types, in an orderly session. -/
theorem Loop.Ready.sound_pass (wellFormed : setting.WellFormed)
    (ready : loop.Ready setting room context env s) (head : Environment)
    (ofHead : head.Of setting.Ground) :
    Sound setting.Ground setting.Ground (fun t => t.Of setting.Ground ∧ Kept setting s t)
      (fun _ _ => True)
      (loop.pass setting (interpret setting room) context head) (Flow.Of setting.Ground) :=
  ready.loop.sound_pass (answering_kept wellFormed.closed ready.room) wellFormed.closed
    ready.expected head ofHead

/-! ## Above the recorded pass -/

/-- A loop is recorded above what it comes to, unless it meets a fault. Every name that is bound
    behind the last scratch pass is bound at the head with which the loop is recorded, to a type
    above. Before the limit of passes, this scratch pass began with the same head. If it did, and
    what each of its calls was answered has an entry in the cache, or no placeholder moves between
    the answer and the end of the pass, then every name that is bound behind the recorded pass is
    bound at its head, to a type above. -/
theorem loop_recorded_above (wellFormed : setting.WellFormed)
    (ready : loop.Ready setting room context env s) (body : Body) :
    Ends
      (fun recorded u =>
        loop.run setting (interpret setting room) context env body s =
            (.ok (loop.leave setting.hierarchy body recorded.1.head recorded.2), u) ∧
          ∃ n attempt behind t,
            LastScratch setting (loop.pass setting (interpret setting room) context) env s n attempt
              behind t ∧
            loop.pass setting (interpret setting room) context recorded.1.head body.enterLoop t =
              (.ok (recorded.1.last, recorded.2), u) ∧
            Flow.Below setting.hierarchy behind recorded.1.head ∧
            (n + 1 < setting.options.maxFixpointIterations → recorded.1.head = attempt.head) ∧
            (recorded.1.head = attempt.head →
              (∀ call, loop.Makes setting room context attempt.head attempt.session call →
                call.Settled setting t) →
              Flow.Below setting.hierarchy recorded.1.last recorded.1.head))
      (fun fault u =>
        loop.run setting (interpret setting room) context env body s = (.error fault, u))
      (loop.recording setting (interpret setting room) context env body s) := by
  obtain ⟨n, attempt, attempts, last⟩ :=
    Rounds.exists_last (nextAttempt setting (loop.pass setting (interpret setting room) context))
      setting.options.maxFixpointIterations ⟨[], env, s⟩
  obtain ⟨of, ofSession, kept⟩ := of_attempts wellFormed.closed (ready.sound_pass wellFormed)
    ready.env ⟨ready.session, .refl ready.orderly⟩ attempts
  have sound := ready.sound_pass wellFormed attempt.head of.head Body.start attempt.session
    wellFormed.closed.of_start ⟨ofSession, kept⟩
  have found := headAtRest_of_last attempts last body
  rw [Loop.recording_eq, Loop.run_eq, bind_run, bind_run]
  unfold Loop.headAtRest
  match passed : loop.pass setting (interpret setting room) context attempt.head Body.start
      attempt.session with
  | (.error fault, t) =>
      rw [passed] at found
      rw [found]
      rfl
  | (.ok (behind, inner), t) =>
      rw [passed] at found
      obtain ⟨head, found, rest⟩ := found
      obtain ⟨⟨ofBehind, -⟩, -⟩ := sound.of_ok passed
      have above := below_atRest wellFormed.declared.ordered wellFormed.closed of ofBehind rest
      rw [found]
      dsimp only
      rw [bind_run, bind_run]
      match repeated : loop.pass setting (interpret setting room) context head body.enterLoop t with
      | (.error fault, u) => rfl
      | (.ok (again, left), u) =>
          refine ⟨rfl, n, attempt, behind, t, ⟨attempts, last, inner, passed⟩, repeated, above,
            fun early => ?_, fun same settled => ?_⟩
          · cases rest with
            | same _ => rfl
            | limit reached => omega
          · change head = attempt.head at same
            subst same
            have equal := Loop.eq_of_again kept.orderly (by rw [kept.stack.length, ready.room])
              passed settled rfl rfl repeated
            exact equal ▸ above

/-! ## Loops of given programs -/

/-- Splits a body at its first loop over a condition. -/
def splitAtLoop : List Stmt → Option (List Stmt × Loop)
  | [] => none
  | .loop test body update _ :: _ => some ([], .whileTrue test body update)
  | stmt :: stmts => (splitAtLoop stmts).map fun p => (stmt :: p.1, p.2)

/-- A loop in a body names types of the body. -/
theorem of_splitAtLoop {stmts before : List Stmt} (split : splitAtLoop stmts = some (before, loop))
    (of : ∀ t ∈ Stmt.allTypes stmts, kind t) : loop.Of kind := by
  fun_induction splitAtLoop stmts generalizing before with
  | case1 => cases split
  | case2 test body update loc rest =>
      cases split
      have types : ∀ t ∈ test.types ++ Stmt.allTypes body ++ Stmt.allTypes update, kind t :=
        fun t member => of t (List.mem_append_left _ member)
      simp only [List.forall_mem_append] at types
      exact ⟨types.1.1, by simpa [Loop.blocks] using ⟨types.1.2, types.2⟩⟩
  | case3 stmt stmts other ih =>
      obtain ⟨⟨before', loop'⟩, found, same⟩ := Option.map_eq_some_iff.1 split
      cases same
      exact ih found fun t member => of t (List.mem_append_right _ member)

namespace Examples

/-! ### A loop that rests before the limit -/

/-- A unit with a loop that copies a name through a call, and gives the name another type. -/
def copyingSource : String :=
  "function same(a) \x7b return a; \x7d\n" ++
    "function f(c, x, y, z) \x7b\n" ++
    "  while (c) \x7b y = same(x); x = z; \x7d\n" ++
    "\x7d\n"

/-- The types of the arguments of the function. -/
def copyingArgs : List Ty := [.bool, .int, .int, .abstract "Number"]

/-- The scope of the function. -/
def copyingScope (setting : Setting) (m : Method) : Environment :=
  methodEnvironment setting ⟨m, [], .full⟩ copyingArgs

/-- Whether the first loop of a function is recorded behind fewer scratch passes than are allowed,
    and its calls move no placeholder. -/
def restsEarly (setting : Setting) (m : Method) (loop : Loop) : Bool :=
  let pass := loop.pass setting (interpret setting 100) ⟨none, false⟩
  let (made, s) := loop.recording setting (interpret setting 100) ⟨none, false⟩
    (copyingScope setting m) Body.start (Session.start setting.options)
  made.toOption.any (·.1.last.isSome) && s.generation == 0 &&
    (roundStart (nextAttempt setting pass)
      ⟨[], copyingScope setting m, Session.start setting.options⟩ 15).isNone

theorem ready_copying {unit : CompiledUnit} {m : Method} {before : List Stmt}
    (wellFormed : (unit.setting {}).WellFormed) (member : m ∈ unit.table.methods)
    (split : m.body.bind splitAtLoop = some (before, loop))
    (ground : ∀ t ∈ copyingArgs, (unit.setting {}).Ground t) :
    loop.Ready (unit.setting {}) 100 ⟨none, false⟩ (copyingScope (unit.setting {}) m)
      (Session.start {}) where
  expected := by simp
  loop := by
    obtain ⟨stmts, body, split⟩ := Option.bind_eq_some_iff.1 split
    exact of_splitAtLoop split ((wellFormed.methods m member).body stmts body)
  env := of_methodEnvironment wellFormed.closed ⟨by simp, (wellFormed.methods m member).of⟩ ground
  session := of_start (unit.setting {})
  orderly := orderly_empty rfl rfl rfl
  room := rfl

theorem exists_of_restsEarly {m : Method} (early : restsEarly setting m loop = true) :
    ∃ recorded u, loop.recording setting (interpret setting 100) ⟨none, false⟩
        (copyingScope setting m) Body.start (Session.start setting.options) = (.ok recorded, u) ∧
      recorded.1.last.isSome = true ∧ u.generation = 0 ∧
      roundStart (nextAttempt setting (loop.pass setting (interpret setting 100) ⟨none, false⟩))
        ⟨[], copyingScope setting m, Session.start setting.options⟩ 15 = none := by
  unfold restsEarly at early
  match made : loop.recording setting (interpret setting 100) ⟨none, false⟩
      (copyingScope setting m) Body.start (Session.start setting.options) with
  | (.error fault, u) =>
      rw [made] at early
      cases early
  | (.ok recorded, u) =>
      rw [made] at early
      simp only [Bool.and_eq_true, beq_iff_eq, Option.isNone_iff_eq_none] at early
      exact ⟨recorded, u, rfl, early.1.1, early.1.2, early.2⟩

theorem loop_recorded_above_copying :
    ∃ unit m loop recorded u, compile copyingSource "copying.tpr" = .ok unit ∧
      m ∈ unit.table.methods ∧ m.body.bind splitAtLoop = some ([], loop) ∧
      (unit.setting {}).WellFormed ∧
      loop.Ready (unit.setting {}) 100 ⟨none, false⟩ (copyingScope (unit.setting {}) m)
        (Session.start {}) ∧
      loop.recording (unit.setting {}) (interpret (unit.setting {}) 100) ⟨none, false⟩
        (copyingScope (unit.setting {}) m) Body.start (Session.start {}) = (.ok recorded, u) ∧
      recorded.1.last.isSome = true ∧ Flow.Below unit.hierarchy recorded.1.last recorded.1.head := by
  obtain ⟨unit, compiled, computed⟩ := exists_of_any
    (show (compile copyingSource "copying.tpr").toOption.any (fun unit => unit.isWellFormed &&
      (Ty.allGround unit.hierarchy copyingArgs &&
        (unit.table.methods.find? (·.name == "f")).any fun m =>
          (m.body.bind splitAtLoop).any fun p => p.1.isEmpty &&
            restsEarly (unit.setting {}) m p.2)) = true by decide +kernel)
  simp only [Bool.and_eq_true, Option.any_eq_true, List.isEmpty_iff] at computed
  obtain ⟨checked, ground, m, found, ⟨before, loop⟩, split, rfl, early⟩ := computed
  have member := List.mem_of_find?_eq_some found
  have wellFormed := wellFormed_of_compile compiled checked {}
  have ready := ready_copying wellFormed member split (Ty.allGround_iff.1 ground)
  obtain ⟨recorded, u, made, reached, generation, early⟩ := exists_of_restsEarly early
  refine ⟨unit, m, loop, recorded, u, compiled, member, split, wellFormed, ready, made, reached, ?_⟩
  obtain ⟨-, n, attempt, behind, t, scratch, repeated, -, before, below⟩ :=
    (loop_recorded_above wellFormed ready Body.start).of_ok made
  obtain ⟨attempts, -, inner, passed⟩ := scratch
  -- the fifteenth round would begin
  have few : n < 15 := by
    by_contra many
    obtain ⟨_, later⟩ := Rounds.exists_of_le attempts (Nat.le_of_not_lt many)
    cases later.roundStart_eq.symm.trans early
  have between := Loop.generation_le passed
  have behind := Loop.generation_le repeated
  refine below (before (by change n + 1 < 16; omega)) fun call makes =>
    makes.settled passed (by omega)

/-! ### Loops that come to more than they are recorded with -/

/-- Enters a call from outside of a function with one method, and executes its body as far as the
    first loop. Tells the loop and the environment in front of it. -/
def upToLoop (setting : Setting) (callee : String) (args : List Ty) :
    Infer (Option (Loop × Environment)) := do
  enter callee args { callee := callee, loc := default } (Cache.keyOf callee args)
  match setting.table.methods.find? (·.name == callee) with
  | none => pure none
  | some m =>
      match m.body.bind splitAtLoop with
      | none => pure none
      | some (before, loop) => do
          let (flow, _) ← execBlock setting (interpret setting 99) ⟨none, false⟩ before
            (methodEnvironment setting ⟨m, [], .full⟩ args) Body.start
          pure (flow.map (loop, ·))

/-- Whether the first loop of a function, in a call from outside, is met with well-formed types and
    comes to an environment that is not below the one with which it is recorded. -/
def Overtaken (setting : Setting) (callee : String) (args : List Ty) : Prop :=
  ∃ loop env s recorded last t,
    upToLoop setting callee args (Session.start setting.options) = (.ok (some (loop, env)), s) ∧
      env.GroundHere setting.hierarchy ∧
      loop.recording setting (interpret setting 99) ⟨none, false⟩ env Body.start s =
        (.ok recorded, t) ∧
      recorded.1.last = some last ∧ ¬ last.Below setting.hierarchy recorded.1.head

/-- Computes whether every name of the innermost scope is bound once, to a well-formed type. -/
def isGroundHere (h : Hierarchy) (env : Environment) : Bool :=
  decide (env.bindings.map Prod.fst).Nodup && env.bindings.all (·.2.type.ground h)

/-- Computes whether a loop comes to more than it is recorded with. -/
def isOvertaken (setting : Setting) (callee : String) (args : List Ty) : Bool :=
  match upToLoop setting callee args (Session.start setting.options) with
  | (.ok (some (loop, env)), s) =>
      isGroundHere setting.hierarchy env &&
        (loop.recording setting (interpret setting 99) ⟨none, false⟩ env Body.start s).1.toOption.any
          fun r => r.1.last.any fun last => !last.isBelow setting.hierarchy r.1.head
  | _ => false

/-- The numbers and the truth values. -/
def truthHierarchy : Hierarchy :=
  ⟨⟨"Bool", false, some "Any", [], none, none⟩ :: Lattice.numberHierarchy.decls⟩

/-- A method without declared types. -/
def plainMethod (name : String) (params : List String) (body : List Stmt) : Method :=
  ⟨name, params.map (⟨·, .any⟩), [], none, some body, none, default⟩

/-- The call of a function, from a place of its own. -/
def callFrom (column : Nat) (callee : String) (arg : Expr) : Expr :=
  .call callee [arg] ⟨"", 1, column⟩

/-- A value of a type. -/
def valueOf (type : Ty) : Expr := .literal type none default

/-- An assignment of a name without a declared type. -/
def assigned (name : String) (value : Expr) : Stmt := .assign name value none default

/-- A program with a loop in which `x` gets the type that `y` has got, which is told only behind the
    first pass. There is no other one. -/
def capped : Setting where
  hierarchy := truthHierarchy
  table := .ofMethods
    [plainMethod "f" ["c"]
      [assigned "x" (valueOf .int), assigned "y" (valueOf .int),
        .loop (.name "c" default)
          [assigned "x" (.name "y" default), assigned "y" (valueOf .any)] [] default]]
  globals := globalEnvironment []
  options := { maxFixpointIterations := 1 }

/-- A program with a loop that calls `k` for an integer, and then for a number. The latter analyses
    `k` for an integer again, since `r` has moved a placeholder, and within a call of `g` for a
    number. -/
def renewed : Setting where
  hierarchy := truthHierarchy
  table := .ofMethods
    [plainMethod "r" ["x"]
      [.expr (callFrom 1 "r" (.name "x" default)) default, .ret (some (.name "x" default)) default],
     plainMethod "k" ["x"]
      [.expr (callFrom 2 "f" (valueOf .bool)) default,
        .ret (some (callFrom 3 "g" (.name "x" default))) default],
     plainMethod "g" ["x"]
      [.expr (callFrom 4 "k" (valueOf .int)) default, .ret (some (.name "x" default)) default],
     plainMethod "f" ["c"]
      [assigned "a" (callFrom 5 "k" (valueOf .int)),
        .loop (.name "c" default)
          [assigned "a" (callFrom 6 "k" (valueOf .int)),
            .expr (callFrom 7 "r" (.name "c" default)) default,
            .expr (callFrom 8 "k" (valueOf (.abstract "Number"))) default] [] default]]
  globals := globalEnvironment []
  options := {}

theorem groundHere_of_isGroundHere {h : Hierarchy} (computed : isGroundHere h env = true) :
    env.GroundHere h := by
  simp only [isGroundHere, Bool.and_eq_true, decide_eq_true_eq, List.all_eq_true] at computed
  refine ⟨computed.1, fun name t bound => ?_⟩
  obtain ⟨x, found, rfl⟩ := typeHere?_eq_some.1 bound
  exact computed.2 _ (Assoc.mem_of_find? found)

theorem overtaken_of_isOvertaken {callee : String} {args : List Ty}
    (computed : isOvertaken setting callee args = true) : Overtaken setting callee args := by
  unfold isOvertaken at computed
  split at computed
  · rename_i loop env s found
    rw [Bool.and_eq_true] at computed
    obtain ⟨ground, computed⟩ := computed
    match made : loop.recording setting (interpret setting 99) ⟨none, false⟩ env Body.start s with
    | (.error fault, t) =>
        rw [made] at computed
        cases computed
    | (.ok recorded, t) =>
        rw [made] at computed
        change (recorded.1.last.any fun last =>
            !last.isBelow setting.hierarchy recorded.1.head) = true at computed
        obtain ⟨last, reached, above⟩ := (Option.any_eq_true _ _).1 computed
        rw [Bool.not_eq_true', ← Bool.not_eq_true, isBelow_iff] at above
        exact ⟨loop, env, s, recorded, last, t, found, groundHere_of_isGroundHere ground, made,
          reached, above⟩
  · cases computed

/-- Loops may come to more than they are recorded with. Behind the last pass that the limit allows,
    only what has changed in this pass is set to the top, not what comes of it. And before the limit,
    a call within the loop may be answered anew in the recorded pass. -/
theorem recorded_loop_overtaken :
    Overtaken capped "f" [.bool] ∧ Overtaken renewed "f" [.bool] :=
  ⟨overtaken_of_isOvertaken (by decide +kernel), overtaken_of_isOvertaken (by decide +kernel)⟩

end Examples

end Multimethod.Inference
