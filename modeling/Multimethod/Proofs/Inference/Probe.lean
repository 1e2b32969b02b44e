import Multimethod.Proofs.Inference.Consistency
import Multimethod.Proofs.Inference.Entries

/-!
# The calls of a given run

What the passes over a call do can be computed, but the calls that are made meanwhile are known
only to whoever answers them. A probe answers none: it stops a script at its first call, and tells
which one it is. Where calls fail nothing comes behind them, so that they are all found that way.
-/

namespace Multimethod.Inference

/-- Stops a script at its first call, and tells which call it is. -/
def probe : Caller := fun callee args site s =>
  (.error (.entrySealed ""), { s with stack := [⟨callee, site.loc, args, "", 0, none⟩] })

/-- The session in which the first pass over a call begins. -/
def Call.entering (setting : Setting) (call : Call) : Session :=
  (enter call.callee (call.widened setting) call.site (call.key setting) call.session).2

/-- Whether the call that a probe has found is one of well-formed arguments, and fails. -/
def failsAtOnce (setting : Setting) (room : Nat) (s : Session) :
    Except Fault Frame × Session → Bool
  | (.ok _, _) => true
  | (.error _, t) => t.stack.all fun a =>
      Ty.allGround setting.hierarchy a.args &&
        !succeeds (fun _ => true) (Call.answer setting ⟨room, a.callee, a.args, a.loc, s⟩)

variable {setting : Setting} {s t : Session} {call inner : Call} {callee : String}
  {args : List Ty} {loc : Location} {room : Nat} {script : Script Frame}

/-! ## Scripts -/

/-- What a probe finds is the first call of a script. -/
theorem Script.makes_of_probe (room : Nat)
    (found : script.run probe s = probe callee args { callee := callee, loc := loc } s) :
    script.Makes setting room s ⟨room, callee, args, loc, s⟩ := by
  cases script with
  | done x => cases found
  | stray jump loc => cases found
  | call callee args loc next =>
      cases found
      exact .here

/-- A script that a probe does not stop makes no calls. -/
theorem Script.not_makes {α : Type} {script : Script α} {x : α}
    (found : script.run probe s = (.ok x, t)) : ¬ script.Makes setting room s call := by
  intro makes
  cases makes with
  | here => cases found
  | later answered further => cases found

/-- If the first call of a script fails, it makes no other one. -/
theorem Script.eq_of_makes
    (found : script.run probe s = probe callee args { callee := callee, loc := loc } s)
    (fails : ∀ frame u, Call.answer setting ⟨room, callee, args, loc, s⟩ ≠ (.ok frame, u))
    (makes : script.Makes setting room s call) : call = ⟨room, callee, args, loc, s⟩ := by
  cases makes with
  | here =>
      cases found
      rfl
  | later answered further =>
      cases found
      exact absurd answered (fails _ _)

theorem Script.ground_of_makes (fails : failsAtOnce setting room s (script.run probe s) = true)
    (makes : script.Makes setting room s call) :
    call.room = room ∧ Ty.allGround setting.hierarchy call.args = true := by
  have first {callee : String} {args : List Ty} {loc : Location} {next : Frame → Script Frame}
      (fails : failsAtOnce setting room s ((Script.call callee args loc next).run probe s) = true) :
      (Ty.allGround setting.hierarchy args && !succeeds (fun _ => true)
        (Call.answer setting ⟨room, callee, args, loc, s⟩) && true) = true := fails
  cases makes with
  | here =>
      have found := first fails
      simp only [Bool.and_true, Bool.and_eq_true] at found
      exact ⟨rfl, found.1⟩
  | later answered further =>
      have found := first fails
      simp [answered, succeeds] at found

/-! ## Calls -/

theorem exists_of_any {ε α : Type} {check : α → Bool} {answer : Except ε α}
    (holds : answer.toOption.any check = true) : ∃ x, answer = .ok x ∧ check x = true := by
  cases answer with
  | ok x => exact ⟨x, rfl, holds⟩
  | error _ => cases holds

theorem ne_ok_of_succeeds {α : Type} {outcome : Except Fault α × Session}
    (fails : succeeds (fun _ : α => true) outcome = false) (x : α) (u : Session) :
    outcome ≠ (.ok x, u) := by
  rintro rfl
  cases fails

theorem Call.enters_entering
    (unknown : (call.session.cache.find? (call.key setting)).isNone = true)
    (unshelved : (call.memo? setting).isNone = true) (room : call.room ≠ 0)
    (entered : succeeds (fun _ => true)
      (enter call.callee (call.widened setting) call.site (call.key setting) call.session) = true) :
    call.Enters setting (call.entering setting) := by
  obtain ⟨_, t, ran, -⟩ := exists_of_succeeds entered
  refine ⟨⟨Option.isNone_iff_eq_none.1 unknown, Option.isNone_iff_eq_none.1 unshelved⟩, room, ?_⟩
  rw [Call.entering, ran]

theorem Call.Enters.eq_entering (enters : call.Enters setting s) : s = call.entering setting := by
  rw [Call.entering, enters.entered]

/-- What a probe finds in the first pass over a call is nested in it. -/
theorem Call.Enters.nested (enters : call.Enters setting (call.entering setting))
    (found : dispatchPass setting probe call.callee (call.widened setting) call.site
      (call.entering setting) =
        probe callee args { callee := callee, loc := loc } (call.entering setting)) :
    Nested setting call ⟨call.room - 1, callee, args, loc, call.entering setting⟩ := by
  obtain ⟨script, follows⟩ := call.exists_hasScript setting
  have makes : script.Makes setting (call.room - 1) (call.entering setting) _ :=
    Script.makes_of_probe _ ((congrFun (follows probe) _).symm.trans found)
  exact .pass enters .first follows makes

/-- If the first pass over a call fails, there is no other one. -/
theorem Begins.eq_of_fails {pass : Infer Frame} {key : String} {passes : Nat}
    (begins : Begins setting pass key s passes t)
    (fails : ∀ frame u, pass s ≠ (.ok frame, u)) : t = s := by
  induction begins with
  | first => rfl
  | again before moves more ih =>
      obtain ⟨frame, u, -, -, -, passed, -⟩ := nextPass_eq_some moves
      rw [ih] at passed
      exact absurd passed (fails frame u)

theorem Nested.room_ne_zero (nested : Nested setting call inner) : call.room ≠ 0 := by
  obtain ⟨enters, -, -, -⟩ := nested
  exact enters.room

/-- If the first pass over a call fails, the calls within it are those that this pass makes. -/
theorem Nested.makes_of_fails (nested : Nested setting call inner)
    (fails : ∀ frame u, call.pass setting (call.entering setting) ≠ (.ok frame, u)) :
    ∃ script, call.HasScript setting script ∧
      script.Makes setting (call.room - 1) (call.entering setting) inner := by
  obtain ⟨enters, begins, follows, makes⟩ := nested
  cases enters.eq_entering
  cases begins.eq_of_fails fails
  exact ⟨_, follows, makes⟩

end Multimethod.Inference
