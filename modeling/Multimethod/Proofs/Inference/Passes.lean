import Multimethod.Proofs.Inference.Fixpoint

/-!
# The passes over a call

The fixpoint over a call leaves no record of its passes: what its placeholder returned during an
earlier one is overwritten, and its frame is dropped. Here the passes are written down, as the
fixpoint makes them, together with what ends them.
-/

namespace Multimethod

/-- The same frame, returning another type. -/
def Frame.returning (frame : Frame) (ret : Ty) : Frame :=
  { frame with ret := ret }

theorem Frame.returning_ret (frame : Frame) : frame.returning frame.ret = frame := by
  cases frame
  rfl

namespace Inference

/-- One pass over a call. -/
structure Round where
  /-- What the placeholder returned when the pass began. -/
  value : Ty
  /-- The frame that the pass gave. -/
  frame : Frame

/-- The passes that the fixpoint over the call of `key` makes from a session on, the last one
    first, and the session behind them. Before each further pass the placeholder moves. -/
inductive Passes (setting : Setting) (pass : Infer Frame) (key : String) (s : Session) :
    List Round → Session → Prop where
  | first {p : Placeholder} {frame : Frame} {t : Session}
      (pending : s.cache.pending? key = some p) (passed : pass s = (.ok frame, t)) :
      Passes setting pass key s [⟨p.ret, frame⟩] t
  | again {p : Placeholder} {last : Round} {earlier : List Round} {next : Ty} {history : List Ty}
      {frame : Frame} {t u : Session} (before : Passes setting pass key s (last :: earlier) t)
      (pending : t.cache.pending? key = some p) (met : p.reentered = true)
      (moves : nextReturn setting p last.frame.ret (earlier.length + 1) = (next, history))
      (different : next.same p.ret = false)
      (passed : pass (t.moved key p next history) = (.ok frame, u)) :
      Passes setting pass key s (⟨next, frame⟩ :: last :: earlier) u

/-- Why the passes over a call come to rest behind `count` of them, of which the last one returned
    `returned`, and that the call then returns `ret`. -/
inductive Rests (setting : Setting) (key : String) (t : Session) (count : Nat) (returned : Ty) :
    Ty → Prop where
  /-- The placeholder is gone. -/
  | gone (absent : t.cache.pending? key = none) : Rests setting key t count returned returned
  /-- The last pass did not meet its own call. -/
  | quiet {p : Placeholder} (pending : t.cache.pending? key = some p)
      (unmet : p.reentered = false) : Rests setting key t count returned returned
  /-- The placeholder would not move. -/
  | stable {p : Placeholder} {next : Ty} {history : List Ty}
      (pending : t.cache.pending? key = some p)
      (moves : nextReturn setting p returned count = (next, history))
      (same : next.same p.ret = true) : Rests setting key t count returned next

/-- How at most `limit` passes over a call end, of which `count` were made and the last one returned
    `returned`: whether they come to rest, and what the call then returns. -/
inductive Concludes (setting : Setting) (key : String) (limit : Nat) (t : Session) (count : Nat)
    (returned : Ty) : Bool → Ty → Prop where
  /-- The placeholder is gone. -/
  | gone (absent : t.cache.pending? key = none) :
      Concludes setting key limit t count returned true returned
  /-- The last pass did not meet its own call. -/
  | quiet {p : Placeholder} (pending : t.cache.pending? key = some p)
      (unmet : p.reentered = false) : Concludes setting key limit t count returned true returned
  /-- The last pass met its own call, and the placeholder would not move. -/
  | stable {p : Placeholder} {next : Ty} {history : List Ty}
      (pending : t.cache.pending? key = some p) (met : p.reentered = true)
      (moves : nextReturn setting p returned count = (next, history))
      (same : next.same p.ret = true) : Concludes setting key limit t count returned true next
  /-- The last pass that is allowed met its own call, and the call may return anything. -/
  | given {p : Placeholder} (pending : t.cache.pending? key = some p) (met : p.reentered = true)
      (reached : count = limit) : Concludes setting key limit t count returned false .any

variable {setting : Setting} {pass : Infer Frame} {key : String} {s s' t : Session}

theorem Passes.exists_passed {last : Round} {earlier : List Round}
    (passes : Passes setting pass key s (last :: earlier) t) :
    ∃ u, pass u = (.ok last.frame, t) := by
  cases passes with
  | first _ passed => exact ⟨_, passed⟩
  | again _ _ _ _ _ passed => exact ⟨_, passed⟩

/-- Repeating a pass adds passes to those that were made, until they come to rest or are given
    up. -/
theorem passes_of_settle {t : Session} {left : Nat} {last : Round} {earlier : List Round}
    {frame : Frame} {converged : Bool} (passes : Passes setting pass key s (last :: earlier) t)
    (done : settle setting pass key left (earlier.length + 1) last.frame t =
      (.ok (frame, converged), s')) {limit : Nat} (within : earlier.length + 1 + left = limit) :
    ∃ last earlier, Passes setting pass key s (last :: earlier) s' ∧
      frame = last.frame.returning frame.ret ∧
      Concludes setting key limit s' (earlier.length + 1) last.frame.ret converged frame.ret := by
  rw [settle_eq] at done
  cases pending : t.cache.pending? key with
  | none =>
      rw [pending] at done
      cases done
      exact ⟨last, earlier, passes, last.frame.returning_ret.symm, .gone pending⟩
  | some p =>
      rw [pending] at done
      dsimp only at done
      split at done
      · rename_i unmet
        cases done
        exact ⟨last, earlier, passes, last.frame.returning_ret.symm,
          .quiet pending (by simpa using unmet)⟩
      · rename_i met
        have met : p.reentered = true := by simpa using met
        cases moves : nextReturn setting p last.frame.ret (earlier.length + 1) with
        | mk next history =>
            rw [moves] at done
            dsimp only at done
            split at done
            · rename_i same
              cases done
              exact ⟨last, earlier, passes, rfl, .stable pending met moves same⟩
            · rename_i different
              match left with
              | 0 =>
                  cases done
                  exact ⟨last, earlier, passes, rfl, .given pending met within⟩
              | left + 1 =>
                  obtain ⟨frame, u, passed, rest⟩ := bind_eq_ok done
                  refine passes_of_settle (.again passes pending met moves
                    (by simpa using different) passed) rest ?_
                  rw [List.length_cons]
                  omega

/-- The fixpoint over a pending call makes passes until they come to rest or the limit is
    reached. -/
theorem concludes_of_fixpoint {p : Placeholder} {frame : Frame} {converged : Bool}
    (pending : s.cache.pending? key = some p)
    (done : fixpoint setting pass key s = (.ok (frame, converged), s')) :
    ∃ last earlier, Passes setting pass key s (last :: earlier) s' ∧
      frame = last.frame.returning frame.ret ∧
      Concludes setting key (max 1 setting.options.maxFixpointIterations) s' (earlier.length + 1)
        last.frame.ret converged frame.ret := by
  obtain ⟨first, t, passed, rest⟩ := bind_eq_ok done
  have begun : Passes setting pass key s [⟨p.ret, first⟩] t := .first pending passed
  refine passes_of_settle begun rest ?_
  rw [List.length_nil]
  omega

/-- The fixpoint over a pending call makes passes, and tells whether they came to rest. -/
theorem passes_of_fixpoint {p : Placeholder} {frame : Frame} {converged : Bool}
    (pending : s.cache.pending? key = some p)
    (done : fixpoint setting pass key s = (.ok (frame, converged), s')) :
    ∃ last earlier, Passes setting pass key s (last :: earlier) s' ∧
      frame = last.frame.returning frame.ret ∧
      (converged = true →
        Rests setting key s' (earlier.length + 1) last.frame.ret frame.ret) := by
  obtain ⟨last, earlier, passes, whole, concludes⟩ := concludes_of_fixpoint pending done
  refine ⟨last, earlier, passes, whole, fun rests => ?_⟩
  clear whole
  generalize frame.ret = ret at concludes ⊢
  cases concludes with
  | gone absent => exact .gone absent
  | quiet pending unmet => exact .quiet pending unmet
  | stable pending _ moves same => exact .stable pending moves same
  | given => cases rests

end Inference

end Multimethod
