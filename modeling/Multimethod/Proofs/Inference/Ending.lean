import Multimethod.Proofs.Inference.Entries

/-!
# Every run ends

The analysis repeats two things, the pass over a call and the pass over the body of a loop, and
both only until a limit is reached. A run therefore comes to an end: with one outcome for each
entry call, or at a jump that has no loop to leave.
-/

namespace Multimethod.Inference

open Environment

/-! ## Loops -/

/-- Where a scratch pass over a loop begins: the environment at the head, with what its bindings
    have been before, and the session. -/
structure Attempt where
  histories : Histories
  head : Environment
  session : Session

/-- The environment at the head of a loop after a scratch pass, widened. -/
def nextHead (setting : Setting) (attempt : Attempt) (behind : Flow) : Environment × Histories :=
  widenAll setting.hierarchy
    ((mergeFlows setting.hierarchy [some attempt.head, behind]).getD attempt.head)
    attempt.histories setting.options.wideningThreshold

/-- The next scratch pass over a loop, if the environment at the head is not yet at rest. -/
def nextAttempt (setting : Setting) (pass : Environment → Walk Flow) (_ : Nat)
    (attempt : Attempt) : Option Attempt :=
  match pass attempt.head Body.start attempt.session with
  | (.error _, _) => none
  | (.ok (behind, _), t) =>
      let (next, histories) := nextHead setting attempt behind
      if next.sameTypes attempt.head then none else some ⟨histories, next, t⟩

/-- The scratch passes over a loop, each with the number of those before. -/
def Attempts (setting : Setting) (pass : Environment → Walk Flow) (env : Environment)
    (s : Session) : Nat → Attempt → Prop :=
  Rounds (nextAttempt setting pass) setting.options.maxFixpointIterations ⟨[], env, s⟩

/-- How the environment at the head of a loop is found behind the last scratch pass: it is at rest,
    or what still differs is set to the top. -/
inductive AtRest (setting : Setting) (n : Nat) (attempt : Attempt) (next : Environment) :
    Environment → Prop where
  | same (rest : next.sameTypes attempt.head = true) : AtRest setting n attempt next attempt.head
  | limit (limit : setting.options.maxFixpointIterations ≤ n + 1) :
      AtRest setting n attempt next (topDivergent attempt.head next)

/-- The recorded pass of a loop, and what comes behind the loop. -/
def recorded (setting : Setting) (pass : Environment → Walk Flow) (exit : Environment → Flow)
    (head : Environment) : Walk Flow := do
  let breaks ← recordPass (pass head)
  pure (mergeFlows setting.hierarchy (exit head :: breaks.map some))

variable {setting : Setting} {pass : Environment → Walk Flow} {env : Environment}
  {s t : Session} {n : Nat} {attempt next : Attempt} {body : Body}

/-- A scratch pass begins with a fresh body, of which nothing is kept. -/
theorem onScratch_run (scratch : Walk Flow) (body : Body) (s : Session) :
    onScratch scratch body s =
      match scratch Body.start s with
      | (.error fault, t) => (.error fault, t)
      | (.ok (behind, _), t) => (.ok (behind, body), t) := by
  change ((do return (← scratch Body.start, body)) >>=
    fun p : (Flow × Body) × Body => pure (p.1.1, p.2) : Infer (Flow × Body)) s = _
  rw [bind_run, bind_run]
  match scratch Body.start s with
  | (.error fault, t) => rfl
  | (.ok (behind, _), t) => rfl

/-- One scratch pass: it meets a fault, leaves the head at rest, or leads to another one. -/
theorem headAtRest_eq (left : Nat) (attempt : Attempt) (body : Body) :
    headAtRest setting pass left attempt.histories attempt.head body attempt.session =
      match pass attempt.head Body.start attempt.session with
      | (.error fault, t) => (.error fault, t)
      | (.ok (behind, _), t) =>
          let (next, histories) := nextHead setting attempt behind
          if next.sameTypes attempt.head then (.ok (attempt.head, body), t)
          else
            match left with
            | 0 => (.ok (topDivergent attempt.head next, body), t)
            | left + 1 => headAtRest setting pass left histories next body t := by
  have peeled (f : Flow → Walk Environment) :
      (onScratch (pass attempt.head) >>= f) body attempt.session =
        match pass attempt.head Body.start attempt.session with
        | (.error fault, t) => (.error fault, t)
        | (.ok (behind, _), t) => f behind body t := by
    change (onScratch (pass attempt.head) body >>= fun p => f p.1 p.2) attempt.session = _
    rw [bind_run, onScratch_run]
    match pass attempt.head Body.start attempt.session with
    | (.error fault, t) => rfl
    | (.ok (behind, _), t) => rfl
  cases left with
  | zero =>
      rw [headAtRest, peeled]
      match pass attempt.head Body.start attempt.session with
      | (.error fault, t) => rfl
      | (.ok (behind, _), t) =>
          dsimp only [nextHead]
          split <;> rfl
  | succ left =>
      rw [headAtRest, peeled]
      match pass attempt.head Body.start attempt.session with
      | (.error fault, t) => rfl
      | (.ok (behind, _), t) =>
          dsimp only [nextHead]
          split <;> rfl

theorem nextAttempt_eq_some (moves : nextAttempt setting pass n attempt = some next) :
    ∃ behind body', pass attempt.head Body.start attempt.session =
        (.ok (behind, body'), next.session) ∧
      nextHead setting attempt behind = (next.head, next.histories) ∧
      next.head.sameTypes attempt.head = false := by
  unfold nextAttempt at moves
  match passed : pass attempt.head Body.start attempt.session with
  | (.error fault, t) =>
      rw [passed] at moves
      cases moves
  | (.ok (behind, body'), t) =>
      rw [passed] at moves
      dsimp only at moves
      split at moves
      · cases moves
      · rename_i different
        cases moves
        exact ⟨behind, body', rfl, rfl, by simpa using different⟩

/-- The scratch passes over a loop, from any of them on. -/
theorem headAtRest_eq_of_attempts (attempts : Attempts setting pass env s n attempt) (body : Body) :
    headAtRest setting pass (setting.options.maxFixpointIterations - 1) [] env body s =
      headAtRest setting pass (setting.options.maxFixpointIterations - 1 - n) attempt.histories
        attempt.head body attempt.session := by
  induction attempts with
  | first => rfl
  | @again n attempt next before moves more ih =>
      obtain ⟨behind, body', passed, heads, different⟩ := nextAttempt_eq_some moves
      have left : setting.options.maxFixpointIterations - 1 - n =
          setting.options.maxFixpointIterations - 1 - (n + 1) + 1 := by omega
      rw [ih, headAtRest_eq, passed, left]
      simp only [heads, different, Bool.false_eq_true, if_false]

/-- Behind the last scratch pass over a loop, the environment at its head is found. -/
theorem headAtRest_of_last (attempts : Attempts setting pass env s n attempt)
    (last : ∀ m other, Attempts setting pass env s m other → m ≤ n) (body : Body) :
    match pass attempt.head Body.start attempt.session with
    | (.error fault, t) =>
        headAtRest setting pass (setting.options.maxFixpointIterations - 1) [] env body s =
          (.error fault, t)
    | (.ok (behind, _), t) =>
        ∃ head, headAtRest setting pass (setting.options.maxFixpointIterations - 1) [] env body s =
            (.ok (head, body), t) ∧
          AtRest setting n attempt (nextHead setting attempt behind).1 head := by
  rw [headAtRest_eq_of_attempts attempts, headAtRest_eq]
  match passed : pass attempt.head Body.start attempt.session with
  | (.error fault, t) => rfl
  | (.ok (behind, _), t) =>
      dsimp only
      split
      · rename_i rest
        exact ⟨_, rfl, .same rest⟩
      · rename_i different
        cases left : setting.options.maxFixpointIterations - 1 - n with
        | zero => exact ⟨_, rfl, .limit (by omega)⟩
        | succ left =>
            -- the limit allows another pass, and the environment moves
            have none := attempts.next_eq_none last (by omega)
            simp [nextAttempt, passed, different] at none

/-- A loop makes scratch passes, and then one pass for the record unless it met a fault. -/
theorem exists_last_attempt (setting : Setting) (pass : Environment → Walk Flow)
    (exit : Environment → Flow) (env : Environment) (body : Body) (s : Session) :
    ∃ n attempt, Attempts setting pass env s n attempt ∧
      (∀ m other, Attempts setting pass env s m other → m ≤ n) ∧
      match pass attempt.head Body.start attempt.session with
      | (.error fault, t) => runLoop setting pass exit env body s = (.error fault, t)
      | (.ok _, t) =>
          ∃ head,
            runLoop setting pass exit env body s = recorded setting pass exit head body t := by
  obtain ⟨n, attempt, attempts, last⟩ := Rounds.exists_last (nextAttempt setting pass)
    setting.options.maxFixpointIterations ⟨[], env, s⟩
  refine ⟨n, attempt, attempts, last, ?_⟩
  have found := headAtRest_of_last attempts last body
  have peeled : runLoop setting pass exit env body s =
      (headAtRest setting pass (setting.options.maxFixpointIterations - 1) [] env body >>=
        fun p => recorded setting pass exit p.1 p.2) s := rfl
  rw [peeled, bind_run]
  match passed : pass attempt.head Body.start attempt.session with
  | (.error fault, t) =>
      rw [passed] at found
      rw [found]
  | (.ok _, t) =>
      rw [passed] at found
      obtain ⟨head, found, -⟩ := found
      rw [found]
      exact ⟨head, rfl⟩

/-! ## Runs -/

theorem ends_runEntries (setting : Setting) (file : String) (entries : List EntryCall) :
    Ends
      (fun result _ => result.file = file ∧
        List.Forall₂ (Answers setting) entries result.outcomes)
      (fun fault _ => IsStray fault)
      (runEntries setting file entries (Session.start setting.options)) := by
  -- clearing the session changes nothing before the first call
  change Ends _ _ ((entries.mapM (runEntry setting) >>= fun outcomes => do
    return RunResult.mk file outcomes (← get).cache.size) (Session.start setting.options))
  exact Ends.bind (idle_start.ends_mapM entries) fun outcomes t _ ⟨answers, _⟩ =>
    And.intro rfl answers

/-- Every run ends, with one outcome for each entry call, in order, or at a jump that has no loop to
    leave. A call is passed over at most as often as the limit says, but at least once: there is a
    last pass, behind which the placeholder is at rest or the limit is reached, and what comes of
    the call is what came of this pass. The same holds for the scratch passes over a loop, behind
    which one more pass is made for the record. -/
theorem run_ends (setting : Setting) (file : String) (entries : List EntryCall) :
    (match run setting file entries with
      | .ok result =>
          result.file = file ∧ List.Forall₂ (Answers setting) entries result.outcomes
      | .error fault => IsStray fault) ∧
    (∀ pass key s, ∃ n t,
      n < max 1 setting.options.maxFixpointIterations ∧
        roundStart (nextPass setting pass key) s n = some t ∧
        (n + 1 < setting.options.maxFixpointIterations → nextPass setting pass key n t = none) ∧
        EndsWith pass t (fixpoint setting pass key s)) ∧
    ∀ pass exit env body s, ∃ n attempt,
      n < max 1 setting.options.maxFixpointIterations ∧
        roundStart (nextAttempt setting pass) ⟨[], env, s⟩ n = some attempt ∧
        (n + 1 < setting.options.maxFixpointIterations →
          nextAttempt setting pass n attempt = none) ∧
        match pass attempt.head Body.start attempt.session with
        | (.error fault, t) => runLoop setting pass exit env body s = (.error fault, t)
        | (.ok _, t) =>
            ∃ head,
              runLoop setting pass exit env body s = recorded setting pass exit head body t := by
  refine ⟨?_, fun pass key s => ?_, fun pass exit env body s => ?_⟩
  · have ends := ends_runEntries setting file entries
    unfold run
    change match (runEntries setting file entries (Session.start setting.options)).1 with
      | .ok result => _
      | .error fault => _
    match runEntries setting file entries (Session.start setting.options), ends with
    | (.ok result, t), ends => exact ends
    | (.error fault, t), ends => exact ends
  · obtain ⟨n, t, begins, last, ends⟩ := exists_last_pass setting pass key s
    exact ⟨n, t, begins.lt, begins.roundStart_eq, begins.next_eq_none last, ends⟩
  · obtain ⟨n, attempt, attempts, last, ends⟩ := exists_last_attempt setting pass exit env body s
    exact ⟨n, attempt, attempts.lt, attempts.roundStart_eq, attempts.next_eq_none last, ends⟩

end Multimethod.Inference
