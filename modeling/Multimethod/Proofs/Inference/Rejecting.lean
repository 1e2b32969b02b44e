import Multimethod.Proofs.Inference.KindsOfCalls
import Multimethod.Proofs.Ty.Spelling

/-!
# Calls that dispatch rejects

Every frame of a call tree is that of a finished call, and one that dispatch rejects stands for
nothing else: it has the one diagnostic and no children. A stored tree stands under the key of its
call, so that whatever is rebuilt from it at another place is again the frame of that call.

One call keeps this, by recursion on the room that is left on the stack. Only how a diagnostic
renders its call depends on the types: two calls with one key have to be rendered alike.
-/

namespace Multimethod.Inference

open Dispatch Multimethod.Frame Multimethod.Lattice

/-- Whether a frame is what dispatch makes of its call, wherever it comes from. -/
def Decided (setting : Setting) (frame : Frame) : Prop :=
  match rejection setting frame.site.callee frame.site frame.args with
  | some rejected => { frame with origin := .interpreted } = rejected
  | none => frame.status = .resolved

/-- Whether a tree is settled, and stored under the key of its call. -/
structure Filed (setting : Setting) (worded : Prop) (key : String) (frame : Frame) : Prop where
  settled : frame.AllSettled worded
  decided : Decided setting frame
  key : key = Cache.keyOf frame.site.callee frame.args
  plain : frame.site.field = none

/-- Whether all trees that a session stores are settled and filed. -/
structure Session.Filed (setting : Setting) (worded : Prop) (s : Session) : Prop where
  finished : ∀ key result, (key, .finished result) ∈ s.cache.entries →
    Inference.Filed setting worded key result.frame
  provisional : ∀ key memo, (key, memo) ∈ s.provisional →
    Inference.Filed setting worded key memo.frame

variable {setting : Setting} {worded : Prop} {kind : Ty → Prop} {s t : Session} {key : String}
  {p : Placeholder} {frame source : Frame} {args : List Ty} {callee : String} {site : CallSite}
  {call inner : Call} {entry : EntryCall} {entries : List EntryCall}

theorem Decided.iff_rejected {alone : Frame}
    (rejected : rejection setting frame.site.callee frame.site frame.args = some alone) :
    Decided setting frame ↔ { frame with origin := .interpreted } = alone := by
  rw [Decided, rejected]

theorem Decided.iff_resolved
    (accepted : rejection setting frame.site.callee frame.site frame.args = none) :
    Decided setting frame ↔ frame.status = .resolved := by
  rw [Decided, accepted]

/-! ## Rebuilt frames -/

/-- A tree that is rebuilt at a call with the same key is settled again. -/
theorem Filed.rebuilt (filed : Filed setting worded key source) (reads : worded → KeysRender kind)
    (ofSource : ∀ a ∈ source.args, kind a) (ofArgs : ∀ a ∈ args, kind a)
    (same : key = Cache.keyOf site.callee args) (plain : site.field = none) :
    (frameFromCache source site args).AllSettled worded := by
  obtain ⟨here, below⟩ := allSettled_iff.1 filed.settled
  refine allSettled_iff.2 ⟨⟨here.ended, by simp [frameFromCache], fun d member dispatch => ?_⟩,
    AllSettled.pruneAll source.children below⟩
  by_cases moves : (source.origin != .interpreted || source.status == .errored) = true
  · simp only [frameFromCache, moves, if_true] at member
    obtain ⟨d, found, rfl⟩ := List.mem_map.1 member
    have rejected := here.rejected d found dispatch
    refine ⟨?_, rejected.status, ?_, rejected.ret, rfl, fun told => ?_⟩
    · simp only [frameFromCache, moves, if_true, rejected.alone, List.map_cons, List.map_nil]
    · change pruneAll source.children = []
      rw [rejected.children, pruneAll]
    · change d.call = renderCall site.callee site.field args
      rw [rejected.call told, CallSite.render, filed.plain, plain]
      exact reads told _ _ _ _ ofSource ofArgs (filed.key.symm.trans same)
  · -- a rejected call is errored, so that its diagnostic moves
    simp only [frameFromCache, moves, Bool.false_eq_true, if_false] at member
    have errored := (here.rejected d member dispatch).status
    simp [errored] at moves

/-- The frame of a call that is entered again is settled. -/
theorem allSettled_start (site : CallSite) (args : List Ty) (ret : Ty) :
    AllSettled worded { Frame.start site args .recursive with ret := ret, status := .resolved } :=
  allSettled_iff.2 ⟨⟨.inl rfl, by simp [Frame.start], by simp [Frame.start]⟩, by simp [Frame.start]⟩

/-! ## Passes -/

theorem Decided.of_pass (pass : SettledPass setting worded callee args site frame)
    (named : site.callee = callee) : Decided setting frame := by
  subst named
  obtain ⟨atSite, withArgs⟩ := pass.placed
  have call : rejection setting frame.site.callee frame.site frame.args =
      rejection setting site.callee site args := by rw [atSite, withArgs]
  cases answer : rejection setting site.callee site args with
  | none => exact (Decided.iff_resolved (call.trans answer)).2 (pass.accepted answer).1
  | some alone =>
      refine (Decided.iff_rejected (call.trans answer)).2 ?_
      rw [pass.rejected alone answer]
      unfold rejection at answer
      split at answer <;> cases answer <;> rfl

/-- What a call returns may be widened if dispatch does not reject it. -/
theorem SettledPass.returning (pass : SettledPass setting worded callee args site frame)
    (accepted : rejection setting callee site args = none) (ret : Ty) :
    SettledPass setting worded callee args site { frame with ret := ret } := by
  obtain ⟨here, below⟩ := allSettled_iff.1 pass.settled
  obtain ⟨resolved, none⟩ := pass.accepted accepted
  refine ⟨allSettled_iff.2 ⟨settled_of_noDispatch here.ended here.inner none, below⟩, pass.placed,
    fun alone rejected => ?_, fun _ => ⟨resolved, none⟩⟩
  rw [accepted] at rejected
  cases rejected

/-- The frame of a pass over a call is filed under the key of the call. -/
theorem SettledPass.filed
    (pass : SettledPass setting worded call.callee (call.widened setting) call.site frame) :
    Filed setting worded (call.key setting) frame := by
  obtain ⟨atSite, withArgs⟩ := pass.placed
  exact ⟨pass.settled, .of_pass pass rfl, by rw [atSite, withArgs]; rfl, by rw [atSite]; rfl⟩

/-! ## What a session stores -/

theorem filed_start (setting : Setting) : (Session.start setting.options).Filed setting worded :=
  ⟨by simp [Session.start, Cache.empty], by simp [Session.start]⟩

theorem Session.Filed.found (filed : s.Filed setting worded) {result : Inferred}
    (found : s.cache.find? key = some (.finished result)) :
    Inference.Filed setting worded key result.frame :=
  filed.finished key result (Assoc.mem_of_find? found)

/-- A session that stores nothing new. -/
theorem Session.Filed.fewer (filed : s.Filed setting worded)
    (finished : ∀ key result, (key, .finished result) ∈ t.cache.entries →
      (key, .finished result) ∈ s.cache.entries)
    (provisional : ∀ memo ∈ t.provisional, memo ∈ s.provisional) : t.Filed setting worded :=
  ⟨fun key result member => filed.finished key result (finished key result member),
    fun key memo member => filed.provisional key memo (provisional _ member)⟩

/-- A placeholder is no result. -/
theorem mem_of_mem_insert_pending {table : Assoc CacheEntry} {name : String} {result : Inferred}
    (member : (name, .finished result) ∈ table.insert key (.pending p)) :
    (name, .finished result) ∈ table := by
  rcases Assoc.eq_or_mem_of_mem_insert member with here | before
  · cases here
  · exact before

theorem Session.Filed.setPlaceholder (filed : s.Filed setting worded) (p : Placeholder) :
    Session.Filed setting worded { s with cache := s.cache.setPlaceholder key p } :=
  filed.fewer (fun _ _ member => mem_of_mem_insert_pending member) fun _ member => member

theorem Session.Filed.withStack (filed : s.Filed setting worded) (stack : List Active) :
    Session.Filed setting worded { s with stack := stack } :=
  ⟨filed.finished, filed.provisional⟩

theorem ends_enter_filed (callee : String) (args : List Ty) (site : CallSite) (key : String)
    (filed : s.Filed setting worded) :
    Ends (fun _ t => t.Filed setting worded ∧ ∃ p, t.cache.pending? key = some p ∧
        p.reentered = false) (fun _ t => t.Filed setting worded)
      (enter callee args site key s) := by
  unfold enter
  rw [get_bind]
  cases begun : s.cache.begin key s.stack.length with
  | error fault => exact filed
  | ok cache =>
      have pending : cache.find? key = _ := (find?_begin begun).trans (if_pos rfl)
      obtain ⟨-, rfl⟩ := begin_eq_ok begun
      exact And.intro (filed.fewer (fun _ _ member => mem_of_mem_insert_pending member)
        fun _ member => member) ⟨_, pending?_of_find? pending, rfl⟩

theorem ends_store_filed (filed : s.Filed setting worded)
    (new : Filed setting worded key frame) (dependsOn : Option Nat) (converged : Bool) :
    Ends (fun _ t => t.Filed setting worded) (fun _ t => t.Filed setting worded)
      (store key dependsOn frame converged s) := by
  unfold store
  rw [get_bind]
  cases headOf s.stack dependsOn with
  | some head =>
      refine ⟨fun name result member => filed.finished name result (mem_of_mem_discard member),
        fun name memo member => ?_⟩
      rcases Assoc.set_or_mem_of_mem_insert member with ⟨rfl, rfl⟩ | before
      · exact new
      · exact filed.provisional name memo before
  | none =>
      dsimp only
      cases finished : s.cache.finish key ⟨frame, converged⟩ with
      | error fault => exact filed
      | ok cache =>
          refine ⟨fun name result member => ?_, fun name memo member =>
            filed.provisional name memo (List.mem_filter.1 member).1⟩
          unfold Cache.finish at finished
          split at finished
          · cases finished
          · cases finished
            rcases Assoc.set_or_mem_of_mem_insert member with ⟨rfl, same⟩ | before
            · cases same
              exact new
            · exact filed.finished name result before

/-! ## Calls -/

/-- What a script comes to if every call that it makes is answered well. -/
theorem Script.ends_of_yields {α : Type} {answer : Frame → Prop} {good : α → Prop}
    {known : Session → Prop} {bad : Fault → Session → Prop} {room : Nat} {script : Script α}
    (yields : script.Yields answer good)
    (calls : ∀ call, script.Makes setting room s call → known call.session →
      Ends (fun frame t => answer frame ∧ known t) bad (call.answer setting))
    (stray : ∀ (jump : Jump) loc t, known t →
      bad (.malformed (.strayJump jump.keyword) (some loc)) t) (before : known s) :
    Ends (fun x t => good x ∧ known t) bad (script.run (interpret setting room) s) := by
  induction script generalizing s with
  | done x => exact And.intro yields before
  | stray jump loc => exact stray jump loc s before
  | call callee args loc next ih =>
      have answered := calls ⟨room, callee, args, loc, s⟩ .here before
      refine Ends.bind answered fun frame t ran after => ?_
      exact ih frame (yields frame after.1)
        (fun call makes => calls call (.later ran makes)) after.2

theorem Script.Makes.room_eq {α : Type} {script : Script α} {room : Nat}
    (makes : script.Makes setting room s call) : call.room = room := by
  induction makes with
  | here => rfl
  | later _ _ ih => exact ih

/-- Sessions that store settled trees under their keys, with types of a kind. -/
structure Session.Ready (setting : Setting) (kind : Ty → Prop) (worded : Prop) (s : Session) :
    Prop where
  of : s.Of kind
  filed : s.Filed setting worded

/-- What a call comes to if it keeps its session ready. -/
abbrev Settles (setting : Setting) (kind : Ty → Prop) (worded : Prop)
    (outcome : Except Fault Frame × Session) : Prop :=
  Ends (fun frame t => frame.AllSettled worded ∧ t.Ready setting kind worded)
    (fun _ t => t.Ready setting kind worded) outcome

variable (closed : Closed setting kind)

section Passes

variable (of : call.Of kind)
  (calls : ∀ inner : Call, inner.room = call.room - 1 → inner.Of kind →
    inner.session.Filed setting worded → Settles setting kind worded (inner.answer setting))
include closed of calls

/-- A pass over a call of a kind comes to a settled tree if the calls within it do. -/
theorem ends_pass_settled (ready : s.Ready setting kind worded) :
    Ends (fun frame t => (SettledPass setting worded call.callee (call.widened setting) call.site
        frame ∧ frame.Of kind) ∧ t.Ready setting kind worded)
      (fun _ t => t.Ready setting kind worded) (call.pass setting s) := by
  have sound := fun caller (answering : Answering kind (Session.Of kind) (fun _ => Session.Of kind)
    caller) => ends_dispatchPass answering closed call.callee (of.widened closed) call.site ready.of
  obtain ⟨script, follows, yields⟩ := exists_settling_dispatchPass setting call.callee
    (call.widened setting) call.site
  have kinds := sound _ (answering_interpret closed (call.room - 1))
  have settles : Ends (fun frame t => SettledPass setting worded call.callee
      (call.widened setting) call.site frame ∧ t.Ready setting kind worded)
      (fun _ t => t.Ready setting kind worded) (call.pass setting s) := by
    rw [show call.pass setting = _ from follows _]
    refine Script.ends_of_yields (yields worded) (fun inner makes before => ?_)
      (fun _ _ _ before => before) ready
    exact calls inner makes.room_eq (makes.of closed follows sound) before.filed
  exact (settles.and kinds).imp (fun _ _ both => ⟨⟨both.1.1, both.2.1⟩, both.1.2⟩)
    fun _ _ both => both.1

/-- The passes over a call of a kind come to a settled tree: the first one to the only frame of the
    call if dispatch rejects it, and all of them to frames with what they return left open if not. -/
theorem ends_fixpoint_settled (ready : s.Ready setting kind worded)
    (pending : s.cache.pending? (call.key setting) = some p) (unmet : p.reentered = false) :
    Ends (fun r t => SettledPass setting worded call.callee (call.widened setting) call.site r.1 ∧
        t.Ready setting kind worded) (fun _ t => t.Ready setting kind worded)
      (fixpoint setting (call.pass setting) (call.key setting) s) := by
  cases answer : rejection setting call.callee call.site (call.widened setting) with
  | some alone =>
      have pass : call.pass setting s = (.ok alone, s) := by
        rw [Call.pass, dispatchPass_of_rejection answer]
        rfl
      have first := ends_pass_settled closed of calls ready
      rw [pass] at first
      rw [fixpoint, bind_run, pass]
      dsimp only
      rw [settle_eq, pending]
      simp only [unmet, Bool.not_false, if_true]
      exact And.intro first.1.1 first.2
  | none =>
      have passes := fun t (ready : Session.Ready setting kind worded t) =>
        ends_pass_settled closed of calls ready
      refine ends_fixpoint_frame passes (fun t p frame iteration ready made pending => ?_)
        (fun _ made => made.1) (fun _ _ _ _ _ made _ => made.1.returning answer _)
        (fun _ made => made.1.returning answer _) ready
      obtain ⟨next, history⟩ := closed.nextReturn (ready.of.pending pending) made.2.ret iteration
      exact ⟨ready.of.moved next history,
        (ready.filed.setPlaceholder _).fewer (fun _ _ member => member) fun _ member => member⟩

/-- A call that is analysed comes to a settled tree, and stores it under its key. -/
theorem ends_analysis_filed (ready : call.session.Ready setting kind worded) :
    Ends (fun frame t => SettledPass setting worded call.callee (call.widened setting) call.site
        frame ∧ t.Filed setting worded)
      (fun _ t => t.Filed setting worded) (call.analysis setting call.session) := by
  have entered := (ends_enter_filed call.callee (call.widened setting) call.site
    (call.key setting) ready.filed).and (ends_enter_of call.callee call.site (call.key setting)
      ready.of (of.widened closed) closed.bottom)
  refine Ends.bind (entered.imp (fun _ _ both => both) fun _ _ both => both.1) ?_
  rintro _ t - ⟨⟨filed, p, pending, unmet⟩, ofSession⟩
  have fixed := (ends_fixpoint_settled closed of calls ⟨ofSession, filed⟩ pending unmet).imp
    (fun _ _ after => And.intro after.1 after.2.filed) fun _ _ ready => ready.filed
  have passed : Ends (fun (r : Frame × Bool × Option Nat) u =>
      SettledPass setting worded call.callee (call.widened setting) call.site r.1 ∧
        u.Filed setting worded) (fun _ u => u.Filed setting worded) (call.passes setting t) :=
    Ends.bind fixed fun _ _ _ after => after
  refine Ends.bind ((ends_popOnExit passed).imp (fun _ _ after => after) ?_) ?_
  · rintro _ _ ⟨u, filed, rfl⟩
    exact filed.withStack _
  · rintro ⟨frame, converged, dependsOn⟩ _ - ⟨u, ⟨pass, filed⟩, rfl⟩
    exact Ends.bind (ends_store_filed (filed.withStack _) pass.filed dependsOn converged)
      fun _ _ _ stored => And.intro pass stored

end Passes

include closed in
/-- A call with types of a kind comes to a settled tree. -/
theorem Call.settles (reads : worded → KeysRender kind) (call : Call) (of : call.Of kind)
    (filed : call.session.Filed setting worded) :
    Settles setting kind worded (call.answer setting) := by
  have ofWidened := of.widened closed
  have settles : Ends (fun frame t => frame.AllSettled worded ∧ t.Filed setting worded)
      (fun _ t => t.Filed setting worded) (call.answer setting) := by
    refine Call.ends_answer ?finished ?pending ?shelved ?full ?analysed
    case finished =>
      intro result found
      have ofResult : result.frame.Of kind := of.session.found found
      exact And.intro ((filed.found found).rebuilt reads ofResult.args ofWidened rfl rfl) filed
    case pending =>
      exact fun p _ =>
        And.intro (allSettled_start _ _ _) ((filed.setPlaceholder _).withStack _)
    case shelved =>
      intro memo _ shelved
      have held := Call.mem_of_memo? shelved
      have ofMemo := of.session.provisional _ held
      exact And.intro ((filed.provisional _ _ held).rebuilt reads ofMemo.args ofWidened rfl rfl)
        (filed.withStack _)
    case full => exact fun _ _ => filed
    case analysed =>
      intro _ _
      have analysed := ends_analysis_filed closed of
        (fun inner room ofInner before => Call.settles reads inner ofInner before)
        ⟨of.session, filed⟩
      exact analysed.imp (fun _ _ after => And.intro after.1.settled after.2)
        fun _ _ filed => filed
  exact (settles.and (of.answer closed)).imp
    (fun _ _ both => ⟨both.1.1, both.2.2, both.1.2⟩) fun _ _ both => ⟨both.2, both.1⟩
termination_by call.room
decreasing_by omega

/-! ## Entry calls -/

/-- Whether the call tree of an entry call, if it has one, is finished, and settled below its
    root. -/
def Outcome.Settled (worded : Prop) : Outcome → Prop
  | .frame root =>
      root.origin = .entry ∧ (root.status = .resolved ∨ root.status = .errored) ∧
        ∀ c ∈ root.children, c.AllSettled worded
  | .failure _ _ _ => True

section Entries

variable (reads : worded → KeysRender kind)
include closed reads

/-- What a body comes to if the calls that it makes are of a kind. -/
theorem ends_built_settled {α : Type} {m : Caller → Walk α} (built : Built m) {body : Body}
    (settled : body.Settled worded) {good : α × Body → Session → Prop}
    (sound : ∀ caller, Answering kind (Session.Of kind) (fun _ => Session.Of kind) caller →
      Ends good (fun _ => Session.Of kind) (m caller body s))
    (ready : s.Ready setting kind worded) :
    Ends (fun p t => p.2.Settled worded ∧ t.Ready setting kind worded)
      (fun _ t => t.Ready setting kind worded) (m (interpretCall setting) body s) := by
  obtain ⟨script, follows, yields⟩ := built.exists_settling body
  rw [show m (interpretCall setting) body = _ from follows _]
  exact Script.ends_of_yields (yields worded settled) (fun inner makes before =>
    inner.settles closed reads (makes.of closed follows sound) before.filed)
    (fun _ _ _ before => before) ready

theorem ends_runEvaluated_settled (entry : EntryCall) {body : Body} (ofArgs : ∀ a ∈ args, kind a)
    (ofBody : body.Of kind) (settled : body.Settled worded)
    (ready : s.Ready setting kind worded) :
    Ends (fun frame t => Outcome.Settled worded (.frame frame) ∧ t.Ready setting kind worded)
      (fun _ t => t.Ready setting kind worded) (runEvaluated setting entry args body s) := by
  unfold runEvaluated
  split
  · exact And.intro ⟨rfl, .inl rfl, settled.children⟩ ready
  · split
    · have answered := Call.settles closed reads
        ⟨setting.options.maxCallDepth.toNat, entry.callee, args, entry.loc, s⟩ ⟨ofArgs, ready.of⟩
        ready.filed
      refine Ends.bind answered fun inner t _ after => And.intro ⟨rfl, ?_, ?_⟩ after.2
      · exact (allSettled_iff.1 after.1).1.ended
      · refine List.forall_mem_append.2 ⟨List.forall_mem_append.2
          ⟨settled.children, (allSettled_iff.1 after.1).2⟩, fun frame member => ?_⟩
        split at member
        · have made := local_of_mem_unionCaseFrames member
          exact (made.settled.imp fun _ => trivial).alone made.children
        · cases member
    · have called := ends_built_settled closed reads
        (built_resolveCall entry.callee entry.loc args setting.globals) settled
        (fun caller answering => (sound_resolveCall answering closed entry.callee entry.loc ofArgs
          setting.globals).ends ofBody ready.of) ready
      exact Ends.bind called fun p t _ after =>
        And.intro ⟨rfl, .inl rfl, after.1.children⟩ after.2

omit closed reads in
theorem ends_abandon_settled (ready : s.Ready setting kind worded) (message : String)
    (bad : Fault → Session → Prop) :
    Ends (fun outcome t => Outcome.Settled worded outcome ∧ t.Ready setting kind worded) bad
      (abandon entry args message s) := by
  have of : Ends (fun outcome t => outcome.Of kind ∧ t.Of kind) bad
      (abandon entry args message s) := ends_abandon_of ready.of message bad
  exact And.intro trivial ⟨of.2, ready.filed.fewer (fun _ _ member => (List.mem_filter.1 member).1)
    (by simp)⟩

/-- An entry call comes to a tree that is settled below its root, if it comes to one. -/
theorem ends_runEntry_settled (ofEntry : ∀ t ∈ Expr.allTypes entry.args, kind t)
    (ready : s.Ready setting kind worded) :
    Ends (fun outcome t => Outcome.Settled worded outcome ∧ t.Ready setting kind worded)
      (fun _ t => t.Ready setting kind worded) (runEntry setting entry s) := by
  have sound := fun caller (answering : Answering kind (Session.Of kind) (fun _ => Session.Of kind)
    caller) => sound_entryArgs closed answering ofEntry ready.of
  have kinds := sound _ (answering_interpret closed setting.options.maxCallDepth.toNat)
  have settles := ends_built_settled closed reads (built_evalAll entry.args setting.globals)
    (Body.settled_start worded) sound ready
  have evaluated := ends_catchLimit (settles.and kinds)
  refine Ends.bind (evaluated.imp (fun _ _ after => after) fun _ _ stopped => stopped.1.1) ?_
  rintro result t - after
  match result, after with
  | .inr message, ⟨_, _, _, after⟩ => exact ends_abandon_settled after.1 message _
  | .inl (args, body), ⟨⟨settled, ready⟩, ⟨ofArgs, ofBody⟩, _⟩ =>
      have called := ends_catchLimit
        (ends_runEvaluated_settled closed reads entry ofArgs ofBody settled ready)
      refine Ends.bind (called.imp (fun _ _ after => after) fun _ _ stopped => stopped.1) ?_
      rintro result u - after
      match result, after with
      | .inr message, ⟨_, _, _, after⟩ => exact ends_abandon_settled after message _
      | .inl frame, ⟨settled, ready⟩ => exact And.intro settled ready

theorem ends_mapM_settled (ofEntries : EntriesOf kind entries)
    (ready : s.Ready setting kind worded) :
    Ends (fun outcomes t => (∀ outcome ∈ outcomes, Outcome.Settled worded outcome) ∧
        t.Ready setting kind worded)
      (fun _ t => t.Ready setting kind worded) (entries.mapM (runEntry setting) s) :=
  ends_mapM (fun _ member _ ready => ends_runEntry_settled closed reads (ofEntries _ member) ready)
    ready

/-- The call trees that a run returns are settled below their roots. -/
theorem settled_of_run (ofEntries : EntriesOf kind entries) {file : String} {result : RunResult}
    (ran : run setting file entries = .ok result) :
    ∀ outcome ∈ result.outcomes, Outcome.Settled worded outcome :=
  forall_mem_outcomes (ends_mapM_settled closed reads ofEntries
    ⟨of_start setting, filed_start setting⟩) ran

end Entries

end Multimethod.Inference
