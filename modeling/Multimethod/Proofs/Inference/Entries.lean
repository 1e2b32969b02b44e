import Mathlib.Data.List.Forall2
import Multimethod.Inference.Run
import Multimethod.Proofs.Inference.Keeping

/-!
# Entry calls

A run analyses its entry calls one after the other. Each of them begins with nothing on the stack,
and leaves nothing on the stack and nothing pending, whether it is answered or meets a limit.
-/

namespace Multimethod.Inference

/-- The calls that an entry call makes itself: those of its arguments, and then the call that it
    is. -/
inductive EntryMakes (setting : Setting) (entry : EntryCall) (s : Session) : Call → Prop where
  | argument {script : Script (List Ty × Body)} {call : Call}
      (follows : script.Describes fun caller =>
        evalAll setting caller entry.args setting.globals Body.start)
      (makes : script.Makes setting setting.options.maxCallDepth.toNat s call) :
      EntryMakes setting entry s call
  | own {args : List Ty} {body : Body} {t : Session}
      (evaluated : evalAll setting (interpretCall setting) entry.args setting.globals Body.start s =
        (.ok (args, body), t))
      (defined : args.any Ty.isBottom = false) (own : isOwnCase setting entry args = true) :
      EntryMakes setting entry s
        ⟨setting.options.maxCallDepth.toNat, entry.callee, args, entry.loc, t⟩
  | resolved {args : List Ty} {body : Body} {t : Session} {script : Script (Ty × Body)}
      {call : Call}
      (evaluated : evalAll setting (interpretCall setting) entry.args setting.globals Body.start s =
        (.ok (args, body), t))
      (defined : args.any Ty.isBottom = false) (several : isOwnCase setting entry args = false)
      (follows : script.Describes fun caller =>
        resolveCall setting caller entry.callee entry.loc args setting.globals body)
      (makes : script.Makes setting setting.options.maxCallDepth.toNat t call) :
      EntryMakes setting entry s call

/-- Whether a run comes to an entry call in the given session. -/
def Reaches (setting : Setting) (entries : List EntryCall) (entry : EntryCall) (s : Session) :
    Prop :=
  ∃ done rest outcomes, entries = done ++ entry :: rest ∧
    done.mapM (runEntry setting) (Session.start setting.options) = (.ok outcomes, s)

/-- The calls of a run. -/
inductive InRun (setting : Setting) (entries : List EntryCall) : Call → Prop where
  | entry {entry : EntryCall} {s : Session} {call : Call}
      (reaches : Reaches setting entries entry s) (makes : EntryMakes setting entry s call) :
      InRun setting entries call
  | nested {outer call : Call} (before : InRun setting entries outer)
      (nested : Nested setting outer call) : InRun setting entries call

/-- The sessions of a run: those in which a call is made, in which a pass begins, and in which a
    call was answered. -/
inductive Visits (setting : Setting) (entries : List EntryCall) : Session → Prop where
  | made {call : Call} (inRun : InRun setting entries call) : Visits setting entries call.session
  | begun {call : Call} {s t : Session} {passes : Nat} (inRun : InRun setting entries call)
      (enters : call.Enters setting s)
      (begins : Begins setting (call.pass setting) (call.key setting) s passes t) :
      Visits setting entries t
  | answered {call : Call} {frame : Frame} {t : Session} (inRun : InRun setting entries call)
      (answered : call.answer setting = (.ok frame, t)) : Visits setting entries t

/-- Whether a session is between entry calls. -/
structure Idle (setting : Setting) (s : Session) : Prop where
  orderly : Orderly setting.options s.cache s.stack
  stack : s.stack = []

/-- The outcomes that an entry call can have. -/
inductive Answers (setting : Setting) (entry : EntryCall) : Outcome → Prop where
  | frame (args : List Ty) (ret : Ty) (status : FrameStatus) (body : Body) :
      Answers setting entry (.frame (entryFrame entry args ret status body))
  | failure {resource : Resource} {max : Int} (args : List Ty)
      (stop : Stop setting (.limit resource max)) :
      Answers setting entry
        (.failure (renderCall entry.callee none args) entry.loc (Fault.limit resource max).message)

variable {setting : Setting} {α : Type} {good : α → Session → Prop} {bad : Fault → Session → Prop}
  {entry : EntryCall} {entries : List EntryCall} {args : List Ty} {body : Body} {s t : Session}
  {call inner : Call}

/-! ## What an entry call keeps -/

theorem Idle.length (idle : Idle setting s) : s.stack.length = 0 := by
  rw [idle.stack, List.length_nil]

theorem Idle.kept (idle : Idle setting s) (kept : Kept setting s t) : Idle setting t where
  orderly := kept.orderly
  stack := by
    have same := kept.stack.length
    rwa [idle.length, List.length_eq_zero_iff] at same

theorem Idle.inOrder (idle : Idle setting s) (callee : String) (args : List Ty) (loc : Location) :
    Call.InOrder setting ⟨setting.options.maxCallDepth.toNat, callee, args, loc, s⟩ where
  orderly := idle.orderly
  room := by rw [idle.length, Nat.add_zero]

theorem Idle.ends_call (idle : Idle setting s) (kept : Kept setting s t) (callee : String)
    (args : List Ty) (loc : Location) :
    Ends (fun _ => Kept setting s) (Halted setting s 0)
      (interpretCall setting callee args { callee := callee, loc := loc } t) := by
  have keeps := keeps_of_inOrder _ ((idle.kept kept).inOrder callee args loc)
  have answered := keeps.answered kept
  rwa [idle.length] at answered

/-- What the body of an entry call keeps. -/
theorem Idle.ends_built {m : Caller → Walk α} (idle : Idle setting s) (built : Built m) (b : Body) :
    Ends (fun _ => Kept setting s) (Halted setting s 0) (m (interpretCall setting) b s) := by
  obtain ⟨script, follows⟩ := built.exists_script b
  rw [show m (interpretCall setting) b = _ from follows _]
  refine script.ends (fun callee args loc t kept => idle.ends_call kept callee args loc)
    (fun jump loc t kept => ?_) s (.refl idle.orderly)
  exact ⟨.stray jump loc, (idle.kept kept).length, ⟨_, kept.orderly⟩, kept.finished⟩

/-- The arguments of an entry call are evaluated first. -/
theorem Idle.ends_evalAll (idle : Idle setting s) (entry : EntryCall) :
    Ends (fun _ => Kept setting s) (Halted setting s 0)
      (evalAll setting (interpretCall setting) entry.args setting.globals Body.start s) :=
  idle.ends_built (built_evalAll entry.args setting.globals) Body.start

theorem Idle.ends_runEvaluated (idle : Idle setting s) (entry : EntryCall) (args : List Ty)
    (body : Body) :
    Ends (fun frame t => Answers setting entry (.frame frame) ∧ Kept setting s t)
      (Halted setting s 0) (runEvaluated setting entry args body s) := by
  unfold runEvaluated
  split
  · exact And.intro (.frame _ _ _ _) (Kept.refl idle.orderly)
  · split
    · exact Ends.bind (idle.ends_call (.refl idle.orderly) _ _ _) fun _ _ _ kept =>
        And.intro (.frame _ _ _ _) kept
    · exact Ends.bind (idle.ends_built (built_resolveCall _ _ args _) body) fun _ _ _ kept =>
        And.intro (.frame _ _ _ _) kept

theorem ends_catchLimit {m : Infer α} (ends : Ends good bad (m s)) :
    Ends
      (fun result t =>
        match result with
        | .inl x => good x t
        | .inr message => ∃ resource max, message = (Fault.limit resource max).message ∧
            bad (.limit resource max) t)
      (fun fault t => bad fault t ∧ ∀ resource max, fault ≠ .limit resource max)
      (catchLimit m s) := by
  unfold catchLimit
  split
  · rename_i x t ran
    rw [ran] at ends
    exact ends
  · rename_i resource max t ran
    rw [ran] at ends
    exact ⟨resource, max, rfl, ends⟩
  · rename_i fault t other ran
    rw [ran] at ends
    exact ⟨ends, fun resource max same => other resource max same⟩

/-- What has come to be behind an entry call. -/
structure Between (setting : Setting) (s t : Session) : Prop where
  idle : Idle setting t
  finished : ∀ key result, s.cache.find? key = some (.finished result) →
    t.cache.find? key = some (.finished result)

/-- Whether a fault is a jump that has no loop to leave. -/
def IsStray (fault : Fault) : Prop :=
  ∃ (jump : Jump) (loc : Location), fault = .malformed (.strayJump jump.keyword) (some loc)

theorem Stop.isStray {fault : Fault} (stop : Stop setting fault)
    (other : ∀ resource max, fault ≠ .limit resource max) : IsStray fault := by
  cases stop with
  | callDepth => exact absurd rfl (other _ _)
  | cacheEntries => exact absurd rfl (other _ _)
  | stray jump loc => exact ⟨jump, loc, rfl⟩

/-- An entry call that met a limit is given up with that limit, and the next one begins afresh. -/
theorem ends_abandon {resource : Resource} {max : Int}
    (halted : Halted setting s 0 (.limit resource max) t) :
    Ends (fun outcome u => Answers setting entry outcome ∧ Between setting s u) bad
      (abandon entry args (Fault.limit resource max).message t) := by
  obtain ⟨stack, orderly⟩ := halted.orderly
  have empty : t.stack = [] := List.length_eq_zero_iff.1 halted.height
  refine And.intro (.failure args halted.stop) ⟨⟨?_, empty⟩, fun key result found => ?_⟩
  · change Orderly setting.options t.cache.discardPlaceholders t.stack
    rw [empty]
    exact orderly.abandon
  · exact Assoc.find?_filter (halted.finished key result found) rfl

/-- An entry call is answered by its call tree or by a limit that it met; only a jump without a
    loop stops it. -/
theorem Idle.ends_runEntry (idle : Idle setting s) (entry : EntryCall) :
    Ends (fun outcome t => Answers setting entry outcome ∧ Between setting s t)
      (fun fault _ => IsStray fault) (runEntry setting entry s) := by
  have evaluated := ends_catchLimit (idle.ends_evalAll entry)
  refine Ends.bind (evaluated.imp (fun _ _ after => after)
    fun _ _ stopped => stopped.1.stop.isStray stopped.2) ?_
  rintro result t - after
  match result, after with
  | .inr message, ⟨resource, max, same, halted⟩ =>
      subst same
      exact ends_abandon halted
  | .inl (args, body), kept =>
      have idle' := idle.kept kept
      have called := ends_catchLimit (idle'.ends_runEvaluated entry args body)
      refine Ends.bind (called.imp (fun _ _ after => after)
        fun _ _ stopped => stopped.1.stop.isStray stopped.2) ?_
      rintro result u - after
      match result, after with
      | .inr message, ⟨resource, max, same, halted⟩ =>
          subst same
          exact ends_abandon (kept.halted halted)
      | .inl frame, ⟨answers, kept'⟩ =>
          exact And.intro answers ⟨idle'.kept kept', (kept.trans kept').finished⟩

theorem idle_start : Idle setting (Session.start setting.options) where
  orderly := orderly_empty rfl rfl rfl
  stack := rfl

/-- Entry calls are answered one by one. -/
theorem Idle.ends_mapM (idle : Idle setting s) (entries : List EntryCall) :
    Ends (fun outcomes t => List.Forall₂ (Answers setting) entries outcomes ∧ Between setting s t)
      (fun fault _ => IsStray fault) (entries.mapM (runEntry setting) s) := by
  induction entries generalizing s with
  | nil => exact And.intro .nil ⟨idle, fun _ _ found => found⟩
  | cons entry entries ih =>
      rw [List.mapM_cons]
      refine Ends.bind (idle.ends_runEntry entry) fun outcome t _ ⟨answers, between⟩ => ?_
      refine Ends.bind (ih between.idle) fun outcomes u _ ⟨others, between'⟩ => ?_
      exact And.intro (.cons answers others) ⟨between'.idle, fun key result found =>
        between'.finished key result (between.finished key result found)⟩

theorem Reaches.idle (reaches : Reaches setting entries entry s) : Idle setting s := by
  obtain ⟨done, rest, outcomes, -, ran⟩ := reaches
  exact ((idle_start.ends_mapM done).of_ok ran).2.idle

/-! ## The calls of a run -/

/-- Every call that is made in order leads to sessions in order. -/
theorem Script.Makes.inOrder {room : Nat} {script : Script α}
    (makes : script.Makes setting room s call)
    (orderly : Orderly setting.options s.cache s.stack)
    (fits : room + s.stack.length = setting.options.maxCallDepth.toNat) :
    call.InOrder setting ∧ Kept setting s call.session := by
  have answered : ∀ callee args loc t, Kept setting s t → Ends (fun _ => Kept setting s)
      (Halted setting s s.stack.length) (Call.answer setting ⟨room, callee, args, loc, t⟩) := by
    intro callee args loc t kept
    refine (keeps_of_inOrder ⟨room, callee, args, loc, t⟩ ⟨kept.orderly, ?_⟩).answered kept
    rw [kept.stack.length, fits]
  obtain ⟨same, kept⟩ := makes.known (Kept setting s) (.refl orderly) answered
  exact ⟨⟨kept.orderly, by rw [same, kept.stack.length, fits]⟩, kept⟩

/-- An entry call makes its calls in order, and with nothing on the stack. -/
theorem EntryMakes.inOrder (makes : EntryMakes setting entry s call) (idle : Idle setting s) :
    call.InOrder setting ∧ Idle setting call.session := by
  have evaluated := idle.ends_evalAll entry
  have made {α : Type} {script : Script α} {t : Session} (idle : Idle setting t)
      (makes : script.Makes setting setting.options.maxCallDepth.toNat t call) :
      call.InOrder setting ∧ Idle setting call.session := by
    obtain ⟨inOrder, kept⟩ := makes.inOrder idle.orderly (by rw [idle.length, Nat.add_zero])
    exact ⟨inOrder, idle.kept kept⟩
  cases makes with
  | argument _ makes => exact made idle makes
  | own ran _ _ =>
      have idle' := idle.kept (evaluated.of_ok ran)
      exact ⟨idle'.inOrder _ _ _, idle'⟩
  | resolved ran _ _ _ makes => exact made (idle.kept (evaluated.of_ok ran)) makes

/-- The passes over a call that is entered keep the calls on the stack. -/
theorem Begins.kept {passes : Nat} (inOrder : call.InOrder setting) (enters : call.Enters setting s)
    (begins : Begins setting (call.pass setting) (call.key setting) s passes t) :
    Kept setting s t := by
  have opened := (ends_enters inOrder enters.toIsNew enters.room).of_ok enters.entered
  have passes : ∀ u, Kept setting s u →
      Ends (fun _ => Kept setting s) (fun _ _ => True) (call.pass setting u) := by
    intro u kept
    have inside := (opened.kept kept).ends_pass inOrder enters.room fun inner _ =>
      keeps_of_inOrder inner
    exact inside.imp (fun _ _ further => kept.trans further) fun _ _ _ => trivial
  exact begins.known (.refl opened.orderly) passes fun u p next history kept pending =>
    kept.moved pending next history

/-- The sessions in which the passes over a call begin. -/
theorem Begins.open {passes : Nat} (inOrder : call.InOrder setting) (enters : call.Enters setting s)
    (begins : Begins setting (call.pass setting) (call.key setting) s passes t) :
    Open setting call.session (call.key setting) t :=
  ((ends_enters inOrder enters.toIsNew enters.room).of_ok enters.entered).kept
    (begins.kept inOrder enters)

/-- A call within a call is made in order, and with the calls on the stack that were there when the
    outer one had been entered. -/
theorem Nested.inOrder (nested : Nested setting call inner) (inOrder : call.InOrder setting) :
    inner.InOrder setting ∧ ∃ s, call.Enters setting s ∧ Kept setting s inner.session := by
  obtain ⟨enters, begins, -, makes⟩ := nested
  have opened := begins.open inOrder enters
  have fits := inOrder.room
  have room := enters.room
  obtain ⟨inner, kept⟩ := makes.inOrder opened.orderly (by rw [opened.length]; omega)
  exact ⟨inner, _, enters, (begins.kept inOrder enters).trans kept⟩

/-- Every call of a run is made in order. -/
theorem InRun.inOrder (inRun : InRun setting entries call) : call.InOrder setting := by
  induction inRun with
  | entry reaches makes => exact (makes.inOrder reaches.idle).1
  | nested _ nested ih => exact (nested.inOrder ih).1

/-- Every session of a run is orderly. -/
theorem Visits.orderly (visits : Visits setting entries s) :
    Orderly setting.options s.cache s.stack := by
  cases visits with
  | made inRun => exact inRun.inOrder.orderly
  | begun inRun enters begins => exact (begins.open inRun.inOrder enters).orderly
  | answered inRun answered => exact ((keeps_of_inOrder _ inRun.inOrder).of_ok answered).orderly

end Multimethod.Inference
