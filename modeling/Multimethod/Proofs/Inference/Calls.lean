import Multimethod.Proofs.Assoc
import Multimethod.Proofs.Inference.Passes
import Multimethod.Proofs.Inference.Scripts
import Multimethod.Proofs.Rounds

/-!
# Calls and the calls within them

A call that is not answered at once is entered, and passes are made over it until its placeholder
is at rest. The calls that are made by these passes are nested in it.
-/

namespace Multimethod.Inference

/-- A call, with the session in which it is made. -/
structure Call where
  /-- How many more frames are allowed on the stack. -/
  room : Nat
  callee : String
  args : List Ty
  loc : Location
  session : Session

namespace Call

/-- The place of a call. -/
def site (call : Call) : CallSite := { callee := call.callee, loc := call.loc }

/-- The argument types with which a call is analysed. -/
def widened (setting : Setting) (call : Call) : List Ty :=
  widenRecursiveArgs setting call.session.stack call.callee call.args call.site

/-- The key of a call in the cache. -/
def key (setting : Setting) (call : Call) : String :=
  Cache.keyOf call.callee (call.widened setting)

/-- What a call comes to. -/
def answer (setting : Setting) (call : Call) : Except Fault Frame × Session :=
  interpret setting call.room call.callee call.args call.site call.session

/-- The provisional result that answers a call, if one is still valid. -/
def memo? (setting : Setting) (call : Call) : Option Provisional :=
  (call.session.provisional.find? (call.key setting)).filter (isCurrent call.session)

/-- Whether a call has to be analysed. -/
structure IsNew (setting : Setting) (call : Call) : Prop where
  unknown : call.session.cache.find? (call.key setting) = none
  unshelved : call.memo? setting = none

/-- One pass over a call. -/
def pass (setting : Setting) (call : Call) : Infer Frame :=
  dispatchPass setting (interpret setting (call.room - 1)) call.callee (call.widened setting)
    call.site

/-- Whether the passes over a call follow a script. -/
def HasScript (setting : Setting) (call : Call) (script : Script Frame) : Prop :=
  script.Describes fun caller =>
    dispatchPass setting caller call.callee (call.widened setting) call.site

theorem exists_hasScript (setting : Setting) (call : Call) :
    ∃ script, call.HasScript setting script :=
  exists_script_dispatchPass setting call.callee (call.widened setting) call.site

variable {setting : Setting} {call : Call}

/-! ## How calls are answered -/

/-- All passes over a call, and what its frame depends on behind them. -/
def passes (setting : Setting) (call : Call) : Infer (Frame × Bool × Option Nat) := do
  let (frame, converged) ← fixpoint setting (call.pass setting) (call.key setting)
  pure (frame, converged, ← topDependency)

/-- How a call is analysed. -/
def analysis (setting : Setting) (call : Call) : Infer Frame := do
  enter call.callee (call.widened setting) call.site (call.key setting)
  let (frame, converged, dependsOn) ← popOnExit (call.passes setting)
  store (call.key setting) dependsOn frame converged
  pure frame

/-- A call is answered from the cache, by its own placeholder or by a provisional result, or else
    it is analysed if there is room for it. -/
theorem answer_eq (setting : Setting) (call : Call) :
    call.answer setting =
      match call.session.cache.find? (call.key setting) with
      | some (.finished result) =>
          (.ok (frameFromCache result.frame call.site (call.widened setting)), call.session)
      | some (.pending p) =>
          reenter (call.key setting) p call.site (call.widened setting) call.session
      | none =>
          match call.memo? setting with
          | some memo => reuse memo call.site (call.widened setting) call.session
          | none =>
              if call.room = 0 then
                (.error (.limit .callDepth setting.options.maxCallDepth), call.session)
              else call.analysis setting call.session := by
  obtain ⟨room, callee, args, loc, s⟩ := call
  unfold answer interpret
  rw [get_bind]
  dsimp only [key, widened, memo?]
  cases s.cache.find? _ with
  | some entry => cases entry <;> rfl
  | none =>
      dsimp only
      cases Option.filter (isCurrent s) _ with
      | some memo => rfl
      | none => cases room <;> rfl

theorem mem_of_memo? {memo : Provisional} (shelved : call.memo? setting = some memo) :
    (call.key setting, memo) ∈ call.session.provisional :=
  Assoc.mem_of_find? (Option.filter_eq_some_iff.1 shelved).1

/-- A call ends well if each way to answer it does. -/
theorem ends_answer {good : Frame → Session → Prop} {bad : Fault → Session → Prop}
    (finished : ∀ result,
      call.session.cache.find? (call.key setting) = some (.finished result) →
      good (frameFromCache result.frame call.site (call.widened setting)) call.session)
    (pending : ∀ p, call.session.cache.find? (call.key setting) = some (.pending p) →
      Ends good bad
        (reenter (call.key setting) p call.site (call.widened setting) call.session))
    (shelved : ∀ memo, call.session.cache.find? (call.key setting) = none →
      call.memo? setting = some memo →
      Ends good bad (reuse memo call.site (call.widened setting) call.session))
    (full : call.IsNew setting → call.room = 0 →
      bad (.limit .callDepth setting.options.maxCallDepth) call.session)
    (analysed : call.IsNew setting → call.room ≠ 0 →
      Ends good bad (call.analysis setting call.session)) :
    Ends good bad (call.answer setting) := by
  rw [answer_eq]
  cases found : call.session.cache.find? (call.key setting) with
  | some entry =>
      cases entry with
      | finished result => exact finished result found
      | pending p => exact pending p found
  | none =>
      cases held : call.memo? setting with
      | some memo => exact shelved memo found held
      | none =>
          dsimp only
          split
          · exact full ⟨found, held⟩ ‹_›
          · exact analysed ⟨found, held⟩ ‹_›

theorem answer_of_new (new : call.IsNew setting) (room : call.room ≠ 0) :
    call.answer setting = call.analysis setting call.session := by
  rw [answer_eq, new.unknown, new.unshelved]
  exact if_neg room

end Call

/-! ## The calls within a call -/

/-- Whether a script makes a call if it is run in a session, with `room` more frames allowed on the
    stack. -/
inductive Script.Makes (setting : Setting) (room : Nat) {α : Type} :
    Script α → Session → Call → Prop where
  | here {callee : String} {args : List Ty} {loc : Location} {next : Frame → Script α}
      {s : Session} : Makes setting room (.call callee args loc next) s ⟨room, callee, args, loc, s⟩
  | later {callee : String} {args : List Ty} {loc : Location} {next : Frame → Script α}
      {s t : Session} {frame : Frame} {call : Call}
      (answered : Call.answer setting ⟨room, callee, args, loc, s⟩ = (.ok frame, t))
      (further : Makes setting room (next frame) t call) :
      Makes setting room (.call callee args loc next) s call

/-- Where the next pass over the call of `key` begins, if the last one, before which `passes` were
    made, began in the given session: the placeholder was met, and has moved. -/
def nextPass (setting : Setting) (pass : Infer Frame) (key : String) (passes : Nat) (s : Session) :
    Option Session :=
  match pass s with
  | (.error _, _) => none
  | (.ok frame, t) =>
      match t.cache.pending? key with
      | none => none
      | some p =>
          if !p.reentered then none
          else
            let (next, history) := nextReturn setting p frame.ret (passes + 1)
            if next.same p.ret then none else some (t.moved key p next history)

/-- The sessions in which the passes over the call of `key` begin, with the number of passes that
    were made before. -/
def Begins (setting : Setting) (pass : Infer Frame) (key : String) :
    Session → Nat → Session → Prop :=
  Rounds (nextPass setting pass key) setting.options.maxFixpointIterations

section Passes

variable {setting : Setting} {pass : Infer Frame} {key : String} {s t u : Session} {n : Nat}
  {frame : Frame}

theorem nextPass_eq_some (moves : nextPass setting pass key n s = some u) :
    ∃ frame t p next history, pass s = (.ok frame, t) ∧ t.cache.pending? key = some p ∧
      p.reentered = true ∧ nextReturn setting p frame.ret (n + 1) = (next, history) ∧
      next.same p.ret = false ∧ u = t.moved key p next history := by
  unfold nextPass at moves
  match passed : pass s with
  | (.error _, _) =>
      rw [passed] at moves
      cases moves
  | (.ok frame, t) =>
      rw [passed] at moves
      cases pending : t.cache.pending? key with
      | none => simp [pending] at moves
      | some p =>
          cases returned : nextReturn setting p frame.ret (n + 1) with
          | mk next history =>
              simp only [pending, returned] at moves
              cases met : p.reentered with
              | false => simp [met] at moves
              | true =>
                  cases same : next.same p.ret with
                  | true => simp [met, same] at moves
                  | false =>
                      simp only [met, same] at moves
                      exact ⟨frame, t, p, next, history, rfl, pending, met, returned, same,
                        (Option.some.inj moves).symm⟩

/-- The fixpoint over a call, from any of its passes on. -/
theorem fixpoint_eq_of_begins (begins : Begins setting pass key s n t) :
    fixpoint setting pass key s =
      (pass >>= settle setting pass key (setting.options.maxFixpointIterations - 1 - n) (n + 1))
        t := by
  induction begins with
  | first => rfl
  | @again n t u before moves more ih =>
      obtain ⟨frame, v, p, next, history, passed, pending, met, returned, different, rfl⟩ :=
        nextPass_eq_some moves
      have left : setting.options.maxFixpointIterations - 1 - n =
          setting.options.maxFixpointIterations - 1 - (n + 1) + 1 := by omega
      rw [ih, bind_run, passed, left]
      dsimp only
      rw [settle_eq, pending]
      simp only [met, returned, different, Bool.not_true, Bool.false_eq_true, if_false]

/-- How the passes over a call end: the last one gives the frame of the call, but for the type that
    it returns, or meets a fault. -/
def EndsWith (pass : Infer Frame) (t : Session) : Except Fault (Frame × Bool) × Session → Prop :=
  Ends (fun r u => ∃ last, pass t = (.ok last, u) ∧ r.1 = last.returning r.1.ret)
    fun fault u => pass t = (.error fault, u)

/-- The fixpoint over a call ends with the last of its passes. -/
theorem endsWith_of_last (begins : Begins setting pass key s n t)
    (last : ∀ m u, Begins setting pass key s m u → m ≤ n) :
    EndsWith pass t (fixpoint setting pass key s) := by
  rw [fixpoint_eq_of_begins begins, bind_run]
  match passed : pass t with
  | (.error fault, u) => exact passed
  | (.ok frame, u) =>
      dsimp only
      rw [settle_eq]
      cases pending : u.cache.pending? key with
      | none => exact ⟨frame, passed, frame.returning_ret.symm⟩
      | some p =>
          dsimp only
          cases returned : nextReturn setting p frame.ret (n + 1) with
          | mk next history =>
              dsimp only
              split
              · exact ⟨frame, passed, frame.returning_ret.symm⟩
              · rename_i met
                split
                · exact ⟨frame, passed, rfl⟩
                · rename_i different
                  cases left : setting.options.maxFixpointIterations - 1 - n with
                  | zero => exact ⟨frame, passed, rfl⟩
                  | succ left =>
                      -- the limit allows another pass, and the placeholder moves
                      have none := begins.next_eq_none last (by omega)
                      simp [nextPass, passed, pending, met, returned, different] at none

theorem exists_last_pass (setting : Setting) (pass : Infer Frame) (key : String) (s : Session) :
    ∃ n t, Begins setting pass key s n t ∧ (∀ m u, Begins setting pass key s m u → m ≤ n) ∧
      EndsWith pass t (fixpoint setting pass key s) := by
  obtain ⟨n, t, begins, last⟩ := Rounds.exists_last (nextPass setting pass key)
    setting.options.maxFixpointIterations s
  exact ⟨n, t, begins, last, endsWith_of_last begins last⟩

end Passes

/-- Whether a call is analysed, and its first pass begins in the given session. -/
structure Call.Enters (setting : Setting) (call : Call) (s : Session) : Prop
    extends call.IsNew setting where
  room : call.room ≠ 0
  entered : enter call.callee (call.widened setting) call.site (call.key setting) call.session =
    (.ok (), s)

/-- Whether a pass over the first call makes the second one. -/
inductive Nested (setting : Setting) (call : Call) : Call → Prop where
  | pass {s t : Session} {passes : Nat} {script : Script Frame} {inner : Call}
      (enters : call.Enters setting s)
      (begins : Begins setting (call.pass setting) (call.key setting) s passes t)
      (follows : call.HasScript setting script)
      (makes : script.Makes setting (call.room - 1) t inner) : Nested setting call inner

end Multimethod.Inference
