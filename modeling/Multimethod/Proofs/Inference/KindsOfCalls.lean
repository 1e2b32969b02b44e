import Multimethod.Proofs.Inference.Entries
import Multimethod.Proofs.Inference.KindsOfBodies
import Multimethod.Proofs.Inference.Probe

/-!
# The types in a run

If the types that a program names are of a kind that its analysis keeps, then everything that a
session of a run remembers is of the kind, and so are the arguments of every call that is made and
every call tree that answers one.
-/

namespace Multimethod.Inference

open Dispatch Multimethod.Lattice

/-- Whether the types that a cache entry holds are of a kind. -/
def CacheEntry.Of (kind : Ty → Prop) : CacheEntry → Prop
  | pending p => kind p.ret ∧ ∀ t ∈ p.history, kind t
  | finished result => result.frame.Of kind

/-- Whether the types that a session remembers are of a kind. -/
structure Session.Of (kind : Ty → Prop) (s : Session) : Prop where
  cache : ∀ entry ∈ s.cache.entries, entry.2.Of kind
  provisional : ∀ memo ∈ s.provisional, memo.2.frame.Of kind
  stack : ∀ active ∈ s.stack, ∀ a ∈ active.args, kind a

/-- Whether the types of the call tree of an entry call, if it has one, are of a kind. -/
def Outcome.Of (kind : Ty → Prop) : Outcome → Prop
  | frame f => f.Of kind
  | failure _ _ _ => True

/-- What comes to a call tree of a kind, and leaves a session of the kind, whatever happens. -/
abbrev Answers? (kind : Ty → Prop) (outcome : Except Fault Frame × Session) : Prop :=
  Ends (fun frame t => frame.Of kind ∧ t.Of kind) (fun _ => Session.Of kind) outcome

variable {setting : Setting} {kind : Ty → Prop} {s t : Session} {key : String} {p : Placeholder}
  {frame : Frame} {args : List Ty} {callee : String} {site : CallSite} {call inner : Call}
  {entry : EntryCall} {entries : List EntryCall}

/-! ## What a session remembers -/

theorem of_start (setting : Setting) : (Session.start setting.options).Of kind :=
  ⟨by simp [Session.start, Cache.empty], by simp [Session.start], by simp [Session.start]⟩

theorem Session.Of.found {held : CacheEntry} (of : s.Of kind)
    (found : s.cache.find? key = some held) : held.Of kind :=
  of.cache _ (Assoc.mem_of_find? found)

theorem Session.Of.pending (of : s.Of kind) (pending : s.cache.pending? key = some p) :
    kind p.ret ∧ ∀ t ∈ p.history, kind t :=
  of.found (find?_of_pending? pending)

theorem Session.Of.set (of : s.Of kind) (held : CacheEntry) (ofHeld : held.Of kind) :
    ∀ entry ∈ s.cache.entries.insert key held, entry.2.Of kind :=
  Assoc.forall_mem_insert (CacheEntry.Of kind) of.cache ofHeld

theorem of_dependOn {stack : List Active} (of : ∀ active ∈ stack, ∀ a ∈ active.args, kind a)
    (depth : Nat) : ∀ active ∈ dependOn stack depth, ∀ a ∈ active.args, kind a := by
  rcases dependOn_cases stack depth with same | ⟨top, below, rfl, -, noted⟩
  · rwa [same]
  · rw [List.forall_mem_cons] at of
    rw [noted]
    exact List.forall_mem_cons.2 ⟨of.1, of.2⟩

theorem of_frameFromCache {source : Frame} (of : source.Of kind) (ofArgs : ∀ a ∈ args, kind a) :
    (frameFromCache source site args).Of kind := by
  obtain ⟨-, ret, children⟩ := Frame.of_iff.1 of
  exact Frame.of_iff.2 ⟨ofArgs, ret, Frame.Of.pruneAll _ children⟩

theorem Closed.nextReturn (closed : Closed setting kind) (of : kind p.ret ∧ ∀ t ∈ p.history, kind t)
    {ret : Ty} (ofRet : kind ret) (iteration : Nat) :
    kind (nextReturn setting p ret iteration).1 ∧
      ∀ t ∈ (nextReturn setting p ret iteration).2, kind t := by
  have joined := closed.join _ _ of.1 ofRet
  have history : ∀ t ∈ p.history ++ [Lattice.join setting.hierarchy p.ret ret], kind t :=
    List.forall_mem_append.2 ⟨of.2, by simpa using joined⟩
  unfold Inference.nextReturn
  dsimp only
  split
  · exact ⟨closed.widen _ _ history, history⟩
  · exact ⟨joined, history⟩

theorem Closed.widened (closed : Closed setting kind) (of : call.session.Of kind)
    (ofArgs : ∀ a ∈ call.args, kind a) : ∀ a ∈ call.widened setting, kind a := by
  unfold Call.widened widenRecursiveArgs
  dsimp only
  split
  · exact ofArgs
  · intro a member
    obtain ⟨⟨arg, position⟩, here, rfl⟩ := List.mem_map.1 member
    refine closed.widen _ _ (List.forall_mem_append.2 ⟨List.forall_mem_map.2 ?_, ?_⟩)
    · intro active on
      have known := of.stack active (List.mem_filter.1 (List.mem_reverse.1 on)).1
      unfold argumentAt
      cases given : active.args[position]? with
      | none => exact closed.bottom
      | some type => exact known type (List.mem_of_getElem? given)
    · simpa using ofArgs arg (List.fst_mem_of_mem_zipIdx here)

/-! ## The steps of a call -/

theorem ends_enter_of (callee : String) (site : CallSite) (key : String) (of : s.Of kind)
    (ofArgs : ∀ a ∈ args, kind a) (bottom : kind .bottom) :
    Ends (fun _ => Session.Of kind) (fun _ => Session.Of kind) (enter callee args site key s) := by
  unfold enter
  rw [get_bind]
  cases begun : s.cache.begin key s.stack.length with
  | error fault => exact of
  | ok cache =>
      obtain ⟨-, rfl⟩ := begin_eq_ok begun
      exact ⟨of.set (.pending _) ⟨bottom, by simp⟩, of.provisional, List.forall_mem_cons.2 ⟨ofArgs, of.stack⟩⟩

theorem ends_store_of (of : s.Of kind) (ofFrame : frame.Of kind) (dependsOn : Option Nat)
    (converged : Bool) :
    Ends (fun _ => Session.Of kind) (fun _ => Session.Of kind)
      (store key dependsOn frame converged s) := by
  unfold store
  rw [get_bind]
  cases headOf s.stack dependsOn with
  | some head =>
      exact ⟨fun entry member => of.cache entry (mem_of_mem_discard member),
        Assoc.forall_mem_insert (fun memo : Provisional => memo.frame.Of kind) of.provisional ofFrame,
        of_dependOn of.stack _⟩
  | none =>
      dsimp only
      cases finished : s.cache.finish key ⟨frame, converged⟩ with
      | error fault => exact of
      | ok cache =>
          refine ⟨fun entry member => ?_, fun memo member => ?_, of.stack⟩
          · unfold Cache.finish at finished
            split at finished
            · cases finished
            · cases finished
              exact of.set (.finished ⟨frame, converged⟩) ofFrame entry member
          · exact of.provisional memo (List.mem_filter.1 member).1

theorem Session.Of.moved (of : s.Of kind) {next : Ty} {history : List Ty} (ofNext : kind next)
    (ofHistory : ∀ t ∈ history, kind t) : (s.moved key p next history).Of kind :=
  ⟨of.set (.pending _) ⟨ofNext, ofHistory⟩, of.provisional, of.stack⟩

theorem ends_fixpoint_of (closed : Closed setting kind) {pass : Infer Frame}
    (passes : ∀ t, t.Of kind → Answers? kind (pass t)) (of : s.Of kind) :
    Ends (fun r t => r.1.Of kind ∧ t.Of kind) (fun _ => Session.Of kind)
      (fixpoint setting pass key s) := by
  refine ends_fixpoint_frame passes (fun t p frame iteration of made pending => ?_)
    (fun _ made => made) (fun t p frame iteration of made pending => ?_)
    (fun _ made => made.returning closed.any) of
  · obtain ⟨next, history⟩ := closed.nextReturn (of.pending pending) made.ret iteration
    exact of.moved next history
  · exact made.returning (closed.nextReturn (of.pending pending) made.ret iteration).1

theorem Session.Of.pop (of : s.Of kind) : Session.Of kind { s with stack := s.stack.tail } :=
  ⟨of.cache, of.provisional, fun active member => of.stack active (List.mem_of_mem_tail member)⟩

/-! ## Calls -/

theorem ends_analysis_of (closed : Closed setting kind) (ofArgs : ∀ a ∈ call.args, kind a)
    (of : call.session.Of kind)
    (passes : ∀ t, t.Of kind → Answers? kind (call.pass setting t)) :
    Answers? kind (call.analysis setting call.session) := by
  have entered := ends_enter_of call.callee call.site (call.key setting) of
    (closed.widened of ofArgs) closed.bottom
  refine Ends.bind entered fun _ t _ before => ?_
  have passed : Ends (fun (r : Frame × Bool × Option Nat) u => r.1.Of kind ∧ u.Of kind)
      (fun _ => Session.Of kind) (call.passes setting t) :=
    Ends.bind (ends_fixpoint_of closed passes before) fun _ _ _ after => after
  have stopped : ∀ (fault : Fault) v, (∃ u : Session, u.Of kind ∧ v = { u with
      stack := u.stack.tail }) → v.Of kind := by
    rintro fault _ ⟨u, after, rfl⟩
    exact after.pop
  refine Ends.bind ((ends_popOnExit passed).imp (fun _ _ after => after) stopped) ?_
  rintro ⟨frame, converged, dependsOn⟩ _ - ⟨u, ⟨ofFrame, after⟩, rfl⟩
  exact Ends.bind (ends_store_of after.pop ofFrame dependsOn converged) fun _ _ _ stored =>
    And.intro ofFrame stored

/-- A call with arguments of a kind is answered by a call tree of the kind. -/
theorem Call.answers_of (closed : Closed setting kind) (call : Call)
    (ofArgs : ∀ a ∈ call.args, kind a) (of : call.session.Of kind) :
    Answers? kind (call.answer setting) := by
  have ofWidened := closed.widened of ofArgs
  refine Call.ends_answer ?finished ?pending ?shelved ?full ?analysed
  case finished =>
    intro result found
    exact And.intro (of_frameFromCache (of.found found) ofWidened) of
  case pending =>
    intro p found
    have ofEntry := of.found found
    refine And.intro (Frame.of_iff.2 ⟨ofWidened, ofEntry.1, by simp [Frame.start]⟩) ?_
    exact ⟨of.set (.pending { p with reentered := true }) ofEntry, of.provisional,
      of_dependOn of.stack _⟩
  case shelved =>
    intro memo _ shelved
    exact And.intro (of_frameFromCache (of.provisional _ (Call.mem_of_memo? shelved)) ofWidened)
      ⟨of.cache, of.provisional, of_dependOn of.stack _⟩
  case full => exact fun _ _ => of
  case analysed =>
    intro _ room
    refine ends_analysis_of closed ofArgs of fun t before => ?_
    have answering : Answering kind (Session.Of kind) (fun _ => Session.Of kind)
        (interpret setting (call.room - 1)) :=
      ⟨fun callee args loc s ofArgs before =>
        Call.answers_of closed ⟨call.room - 1, callee, args, loc, s⟩ ofArgs before,
        fun _ _ _ before => before⟩
    exact ends_dispatchPass answering closed call.callee ofWidened call.site before
termination_by call.room
decreasing_by omega

theorem answering_interpret (closed : Closed setting kind) (room : Nat) :
    Answering kind (Session.Of kind) (fun _ => Session.Of kind) (interpret setting room) :=
  ⟨fun callee args loc s ofArgs before =>
    Call.answers_of closed ⟨room, callee, args, loc, s⟩ ofArgs before, fun _ _ _ before => before⟩

/-! ## The calls that a script makes -/

/-- A script comes to a call that it makes, if the calls before it are answered. -/
theorem Script.Makes.run {α : Type} {script : Script α} {room : Nat} {caller : Caller}
    {fault : Fault} (makes : script.Makes setting room s call)
    (stops : caller call.callee call.args call.site call.session = (.error fault, t))
    (others : ∀ callee args loc u,
      caller callee args { callee := callee, loc := loc } u =
          interpret setting room callee args { callee := callee, loc := loc } u ∨
        caller callee args { callee := callee, loc := loc } u = (.error fault, t)) :
    script.run caller s = (.error fault, t) := by
  induction makes with
  | here =>
      dsimp only [Call.site] at stops
      rw [Script.run, bind_run, stops]
  | @later callee args loc next s u frame call answered further ih =>
      rw [Script.run, bind_run]
      rcases others callee args loc s with same | stopped
      · have ran : interpret setting room callee args { callee := callee, loc := loc } s =
            (.ok frame, u) := answered
        rw [same, ran]
        exact ih stops
      · rw [stopped]

/-- Whether a call is made with arguments of a kind, in a session of the kind. -/
structure Call.Of (kind : Ty → Prop) (call : Call) : Prop where
  args : ∀ a ∈ call.args, kind a
  session : call.session.Of kind

/-- What a computation that keeps to a kind calls is of the kind. -/
theorem Script.Makes.of (closed : Closed setting kind) {α : Type} {m : Caller → Infer α}
    {script : Script α} {room : Nat} {good : α → Session → Prop} (follows : script.Describes m)
    (makes : script.Makes setting room s call)
    (sound : ∀ caller, Answering kind (Session.Of kind) (fun _ => Session.Of kind) caller →
      Ends good (fun _ => Session.Of kind) (m caller s)) : call.Of kind := by
  classical
  -- whoever stops at the call leaves its arguments on the stack
  let told : Session := { call.session with
    stack := ⟨"", call.loc, call.args, "", 0, none⟩ :: call.session.stack }
  let caller : Caller := fun callee args site u =>
    if args = call.args ∧ u = call.session ∧ (callee, site) = (call.callee, call.site) then
      (.error (.entrySealed ""), told)
    else interpret setting room callee args site u
  have answering : Answering kind (Session.Of kind) (fun _ => Session.Of kind) caller := by
    refine ⟨fun callee args loc u ofArgs before => ?_, fun _ _ _ before => before⟩
    dsimp only [caller]
    split
    · rename_i here
      rw [here.1] at ofArgs
      rw [here.2.1] at before
      exact ⟨before.cache, before.provisional, List.forall_mem_cons.2 ⟨ofArgs, before.stack⟩⟩
    · exact (answering_interpret closed room).answered callee args loc u ofArgs before
  have stopped : script.run caller s = (.error (.entrySealed ""), told) :=
    makes.run (if_pos ⟨rfl, rfl, rfl⟩) fun callee args loc u => (ite_eq_or_eq _ _ _).symm
  have ends : told.Of kind := by
    have ends := sound caller answering
    rwa [follows caller, stopped] at ends
  have stack := List.forall_mem_cons.1 ends.stack
  exact ⟨stack.1, ends.cache, ends.provisional, stack.2⟩

/-- The sessions in which the passes over a call begin are of a kind. -/
theorem of_begins (closed : Closed setting kind) {pass : Infer Frame} {n : Nat}
    (passes : ∀ t, t.Of kind → Answers? kind (pass t)) (begins : Begins setting pass key s n t)
    (of : s.Of kind) : t.Of kind := by
  induction begins with
  | first => exact of
  | @again n _ _ _ moves _ ih =>
      obtain ⟨frame, u, p, next, history, passed, pending, -, returned, -, rfl⟩ :=
        nextPass_eq_some moves
      obtain ⟨ofFrame, after⟩ := (passes _ ih).of_ok passed
      obtain ⟨ofNext, ofHistory⟩ := closed.nextReturn (after.pending pending) ofFrame.ret (n + 1)
      rw [returned] at ofNext ofHistory
      exact after.moved ofNext ofHistory

/-! ## Entry calls -/

/-- Whether the types that entry calls name are of a kind. -/
def EntriesOf (kind : Ty → Prop) (entries : List EntryCall) : Prop :=
  ∀ entry ∈ entries, ∀ t ∈ Expr.allTypes entry.args, kind t

/-- What every entry call keeps is kept by all of them, one after the other. -/
theorem ends_mapM {good : Outcome → Prop} {known : Session → Prop}
    {bad : Fault → Session → Prop} (each : ∀ entry ∈ entries, ∀ s, known s →
      Ends (fun outcome t => good outcome ∧ known t) bad (runEntry setting entry s))
    (before : known s) :
    Ends (fun outcomes t => (∀ outcome ∈ outcomes, good outcome) ∧ known t) bad
      (entries.mapM (runEntry setting) s) := by
  induction entries generalizing s with
  | nil => exact And.intro (by simp) before
  | cons entry entries ih =>
      obtain ⟨here, further⟩ := List.forall_mem_cons.1 each
      rw [List.mapM_cons]
      refine Ends.bind (here s before) fun outcome t _ first => ?_
      refine Ends.bind (ih further first.2) fun outcomes u _ others => ?_
      exact And.intro (List.forall_mem_cons.2 ⟨first.1, others.1⟩) others.2

/-- A run returns the outcomes of its entry calls. -/
theorem forall_mem_outcomes {good : Outcome → Prop} {known : Session → Prop}
    {bad : Fault → Session → Prop} {file : String} {result : RunResult}
    (ends : Ends (fun outcomes t => (∀ outcome ∈ outcomes, good outcome) ∧ known t) bad
      (entries.mapM (runEntry setting) (Session.start setting.options)))
    (ran : run setting file entries = .ok result) : ∀ outcome ∈ result.outcomes, good outcome := by
  have all : Ends (fun (result : RunResult) _ => ∀ outcome ∈ result.outcomes, good outcome) bad
      (runEntries setting file entries (.start setting.options)) := by
    -- clearing the session changes nothing before the first call
    change Ends _ _ ((entries.mapM (runEntry setting) >>= fun outcomes => do
      return RunResult.mk file outcomes (← get).cache.size) (.start setting.options))
    exact Ends.bind ends fun _ _ _ after => after.1
  change (runEntries setting file entries (.start setting.options)).1 = .ok result at ran
  exact all.of_ok (Prod.ext ran rfl)

section Entries

variable (closed : Closed setting kind)
include closed

theorem Call.Of.widened (of : call.Of kind) : ∀ a ∈ call.widened setting, kind a :=
  closed.widened of.session of.args

theorem Call.Of.answer (of : call.Of kind) : Answers? kind (call.answer setting) :=
  call.answers_of closed of.args of.session

/-- A call within a call of a kind is of the kind. -/
theorem Nested.of (nested : Nested setting call inner) (of : call.Of kind) : inner.Of kind := by
  obtain ⟨enters, begins, follows, makes⟩ := nested
  have widened := of.widened closed
  have entered := (ends_enter_of call.callee call.site (call.key setting) of.session widened
    closed.bottom).of_ok enters.entered
  have passes : ∀ caller, Answering kind (Session.Of kind) (fun _ => Session.Of kind) caller →
      ∀ u, u.Of kind → Answers? kind
        (dispatchPass setting caller call.callee (call.widened setting) call.site u) :=
    fun caller answering u before =>
      ends_dispatchPass answering closed call.callee widened call.site before
  have before := of_begins closed (passes _ (answering_interpret closed _)) begins entered
  exact makes.of closed follows fun caller answering => passes caller answering _ before

theorem sound_entryArgs {call : Caller} {known : Session → Prop} {bad : Fault → Session → Prop}
    (answering : Answering kind known bad call)
    (ofEntry : ∀ t ∈ Expr.allTypes entry.args, kind t) (before : known s) :
    Ends (fun p t => ((∀ a ∈ p.1, kind a) ∧ p.2.Of kind) ∧ known t) bad
      (evalAll setting call entry.args setting.globals Body.start s) :=
  (sound_evalAll answering closed entry.args ofEntry closed.globals).ends closed.of_start.of before

omit closed in
theorem of_entryFrame {ret : Ty} {body : Body} (ofArgs : ∀ a ∈ args, kind a) (ofRet : kind ret)
    (ofBody : body.Of kind) (status : FrameStatus) :
    (entryFrame entry args ret status body).Of kind :=
  Frame.of_iff.2 ⟨ofArgs, ofRet, ofBody.children⟩

/-- The call that an entry call is comes to a call tree of a kind. -/
theorem answers_runEvaluated (entry : EntryCall) {body : Body} (ofArgs : ∀ a ∈ args, kind a) (ofBody : body.Of kind)
    (of : s.Of kind) : Answers? kind (runEvaluated setting entry args body s) := by
  have answering := answering_interpret closed setting.options.maxCallDepth.toNat
  unfold runEvaluated
  split
  · exact And.intro (of_entryFrame ofArgs closed.bottom ofBody _) of
  · split
    · refine Ends.bind (answering.answered entry.callee args entry.loc s ofArgs of)
        fun inner t _ after => And.intro (of_entryFrame ofArgs after.1.ret ?_ _) after.2
      refine { ofBody with children := List.forall_mem_append.2 ⟨List.forall_mem_append.2
        ⟨ofBody.children, (Frame.of_iff.1 after.1).2.2⟩, ?_⟩ }
      split
      · exact fun frame => of_mem_unionCaseFrames closed ofArgs
      · simp
    · refine Ends.bind ((sound_resolveCall answering closed entry.callee entry.loc ofArgs
        setting.globals).ends ofBody of) fun p t _ after => ?_
      exact And.intro (of_entryFrame ofArgs after.1.1 after.1.2 _) after.2

omit closed in
theorem ends_abandon_of (of : s.Of kind) (message : String) (bad : Fault → Session → Prop) :
    Ends (fun outcome t => outcome.Of kind ∧ t.Of kind) bad (abandon entry args message s) :=
  And.intro trivial ⟨fun _ member => of.cache _ (List.mem_filter.1 member).1, by simp, of.stack⟩

/-- An entry call comes to a call tree of a kind, if it comes to one. -/
theorem ends_runEntry_of (ofEntry : ∀ t ∈ Expr.allTypes entry.args, kind t) (of : s.Of kind) :
    Ends (fun outcome t => outcome.Of kind ∧ t.Of kind) (fun _ => Session.Of kind)
      (runEntry setting entry s) := by
  have evaluated := ends_catchLimit (sound_entryArgs closed
    (answering_interpret closed setting.options.maxCallDepth.toNat) ofEntry of)
  refine Ends.bind (evaluated.imp (fun _ _ after => after) fun _ _ stopped => stopped.1) ?_
  rintro result t - after
  match result, after with
  | .inr message, ⟨_, _, _, after⟩ => exact ends_abandon_of after message _
  | .inl (args, body), ⟨⟨ofArgs, ofBody⟩, after⟩ =>
      have called := ends_catchLimit (answers_runEvaluated closed entry ofArgs ofBody after)
      refine Ends.bind (called.imp (fun _ _ after => after) fun _ _ stopped => stopped.1) ?_
      rintro result u - after
      match result, after with
      | .inr message, ⟨_, _, _, after⟩ => exact ends_abandon_of after message _
      | .inl frame, ⟨ofFrame, after⟩ => exact And.intro ofFrame after

theorem ends_mapM_of (ofEntries : EntriesOf kind entries) (of : s.Of kind) :
    Ends (fun outcomes t => (∀ outcome ∈ outcomes, outcome.Of kind) ∧ t.Of kind)
      (fun _ => Session.Of kind) (entries.mapM (runEntry setting) s) :=
  ends_mapM (fun _ member _ of => ends_runEntry_of closed (ofEntries _ member) of) of

/-- The call trees that a run returns are of a kind. -/
theorem of_run (ofEntries : EntriesOf kind entries) {file : String} {result : RunResult}
    (ran : run setting file entries = .ok result) :
    ∀ outcome ∈ result.outcomes, outcome.Of kind :=
  forall_mem_outcomes (ends_mapM_of closed ofEntries (of_start setting)) ran

theorem Reaches.of (reaches : Reaches setting entries entry s) (ofEntries : EntriesOf kind entries) :
    s.Of kind := by
  obtain ⟨done, rest, outcomes, rfl, ran⟩ := reaches
  have before : EntriesOf kind done := fun entry member =>
    ofEntries entry (List.mem_append_left _ member)
  exact ((ends_mapM_of closed before (of_start setting)).of_ok ran).2

theorem EntryMakes.of (makes : EntryMakes setting entry s call)
    (ofEntry : ∀ t ∈ Expr.allTypes entry.args, kind t) (before : s.Of kind) : call.Of kind := by
  have evaluated := fun caller (answering : Answering kind (Session.Of kind)
    (fun _ => Session.Of kind) caller) => sound_entryArgs closed answering ofEntry before
  have done := evaluated _ (answering_interpret closed setting.options.maxCallDepth.toNat)
  cases makes with
  | argument follows makes => exact makes.of closed follows evaluated
  | own ran _ _ =>
      obtain ⟨⟨ofArgs, -⟩, after⟩ := done.of_ok ran
      exact ⟨ofArgs, after⟩
  | resolved ran _ _ follows makes =>
      obtain ⟨⟨ofArgs, ofBody⟩, after⟩ := done.of_ok ran
      exact makes.of closed follows fun caller answering =>
        (sound_resolveCall answering closed entry.callee entry.loc ofArgs setting.globals).ends
          ofBody after

/-- Every call of a run is of the kind. -/
theorem InRun.of (inRun : InRun setting entries call) (ofEntries : EntriesOf kind entries) :
    call.Of kind := by
  induction inRun with
  | entry reaches makes =>
      obtain ⟨done, rest, outcomes, rfl, -⟩ := id reaches
      exact makes.of closed (ofEntries _ (by simp)) (reaches.of closed ofEntries)
  | nested _ nested ih => exact nested.of closed ih

end Entries

end Multimethod.Inference
