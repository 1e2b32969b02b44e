import Mathlib.Data.List.Induction
import Multimethod.Proofs.Dispatch.Full
import Multimethod.Proofs.Inference.Broadening
import Multimethod.Proofs.Inference.Kinds
import Multimethod.Proofs.Inference.Probe
import Multimethod.Proofs.Inference.Recalling

/-!
# What remembering does not show

A run remembers what it has analysed, and an entry call finds what the entry calls before it have
left. As long as the call and the calls within it have expansions, and so have those before it where
they were made, this does not show: the entry call returns and reports what it does in a run of its
own.
-/

namespace Multimethod.Inference

open Dispatch

/-- What becomes of an entry call whose arguments are evaluated, if `call` answers the calls it
    makes. -/
def evaluatedTree (setting : Setting) (call : Caller) (entry : EntryCall) (args : List Ty)
    (body : Body) : Infer Frame := do
  if args.any Ty.isBottom then pure (entryFrame entry args .bottom .resolved body)
  else if isOwnCase setting entry args then
    let site : CallSite := { callee := entry.callee, loc := entry.loc }
    let inner ← call entry.callee args site
    let extra :=
      if inner.status != .errored && exceedsSplit setting args then
        unionCaseFrames setting entry.callee args site
      else []
    let body : Body :=
      { body with
        errors := body.errors ++ inner.errors
        children := body.children ++ inner.children ++ extra }
    pure (entryFrame entry args inner.ret inner.status body)
  else
    let (ret, body) ←
      (resolveCall setting call entry.callee entry.loc args setting.globals).run body
    pure (entryFrame entry args ret .resolved body)

/-- What becomes of an entry call if `call` answers the calls it makes. -/
def treeOf (setting : Setting) (call : Caller) (entry : EntryCall) : Infer Frame := do
  let (args, body) ← (evalAll setting call entry.args setting.globals).run Body.start
  evaluatedTree setting call entry args body

/-- Whether `frame` is what an entry call comes to if every call it makes is expanded. -/
def EntryExpands (setting : Setting) (scope : String → List Ty → Bool) (entry : EntryCall)
    (frame : Frame) : Prop :=
  ∃ room s s', treeOf setting (expand setting scope room []) entry s = (.ok frame, s')

variable {view : View} {setting : Setting} {scope : String → List Ty → Bool}
  {inv : Session → Session → Prop} {call call' : Caller} {entry : EntryCall}
  {entries done : List EntryCall} {args : List Ty} {body : Body} {s t : Session} {frame : Frame}

/-! ## The tree of an entry call -/

theorem runEvaluated_eq (setting : Setting) (entry : EntryCall) (args : List Ty) (body : Body) :
    runEvaluated setting entry args body =
      evaluatedTree setting (interpretCall setting) entry args body :=
  rfl

/-- An entry call that meets no limit comes to its tree. -/
theorem treeOf_of_runEntry (ran : runEntry setting entry s = (.ok (.frame frame), t)) :
    treeOf setting (interpretCall setting) entry s = (.ok frame, t) := by
  obtain ⟨evaluated, u, first, ran⟩ := bind_eq_ok ran
  cases evaluated with
  | inr message =>
      obtain ⟨_, _, _, ran⟩ := bind_eq_ok ran
      cases ran
  | inl value =>
      obtain ⟨answered, v, second, ran⟩ := bind_eq_ok ran
      cases answered with
      | inr message =>
          obtain ⟨_, _, _, ran⟩ := bind_eq_ok ran
          cases ran
      | inl tree =>
          cases ran
          have args := catchLimit_eq_inl first
          have tree := catchLimit_eq_inl second
          rw [runEvaluated_eq] at tree
          rw [treeOf, bind_run, args]
          exact tree

/-- Alike callers lead to alike trees. -/
theorem tracks_evaluatedTree (calls : CallersAlike view inv call call')
    (entry : EntryCall) (args : List Ty) {b c : Body} (alike : Body.Alike view b c) :
    Tracks inv (Frame.Alike view) (evaluatedTree setting call entry args b)
      (evaluatedTree setting call' entry args c) := by
  unfold evaluatedTree
  split
  · exact Tracks.pure ⟨rfl, rfl, alike.errors, alike.children⟩
  · split
    · refine Tracks.bind (calls entry.callee args entry.loc) fun f g same => Tracks.pure ?_
      refine ⟨same.ret, same.errored, fun seen => ?_, fun seen => ?_⟩
      · change (b.errors ++ f.errors).map _ = (c.errors ++ g.errors).map _
        rw [List.map_append, List.map_append, alike.errors seen, same.errors seen]
      · have rejected : (f.status != .errored) = (g.status != .errored) := by
          rw [bne, bne, same.errored]
        dsimp only [entryFrame]
        rw [rejected]
        simp only [List.flatMap_append]
        rw [alike.children seen, same.children seen]
    · refine Tracks.bind (follows_resolveCall calls _ _ args setting.globals b c alike) ?_
      rintro ⟨ret, b'⟩ ⟨ret', c'⟩ ⟨same, alike'⟩
      exact Tracks.pure ⟨same, rfl, alike'.errors, alike'.children⟩

theorem tracks_treeOf (calls : CallersAlike view inv call call') (entry : EntryCall) :
    Tracks inv (Frame.Alike view) (treeOf setting call entry) (treeOf setting call' entry) := by
  refine Tracks.bind (follows_evalAll calls entry.args setting.globals _ _ (.refl Body.start)) ?_
  rintro ⟨args, b⟩ ⟨args', c⟩ ⟨same, alike⟩
  cases same
  exact tracks_evaluatedTree calls entry args alike

/-- A truthful session gives the tree that the entry call expands to. -/
theorem Truthful.alike_treeOf (apart : KeysApart scope) (places : Places view setting scope)
    (sees : view.sees) (truthful : Truthful view setting scope s) (idle : s.stack = [])
    {expansion : Frame} (expands : EntryExpands setting scope entry expansion)
    (ran : runEntry setting entry s = (.ok (.frame frame), t)) : frame.Alike view expansion := by
  obtain ⟨room, u, u', expanded⟩ := expands
  have faithful := truthful.faithful (fun _ => none) u
  rw [idle] at faithful
  have calls : CallersAlike view (Faithful view setting scope [] [] fun _ => none)
      (interpretCall setting) (expand setting scope room []) :=
    tracks_interpret apart places sees _ room [] [] _
  exact (tracks_treeOf calls entry s u frame expansion t u' faithful (treeOf_of_runEntry ran)
    expanded).1

/-! ## Runs -/

/-- Results of computations that are made one after the other. -/
theorem mapM_eq_ok {α β : Type} {f : α → Infer β} {xs ys : List α} {x : α} {all : List β}
    (ran : (xs ++ x :: ys).mapM f s = (.ok all, t)) :
    ∃ before y after s' t', xs.mapM f s = (.ok before, s') ∧ f x s' = (.ok y, t') ∧
      ys.mapM f t' = (.ok after, t) ∧ all = before ++ y :: after := by
  rw [List.mapM_append] at ran
  obtain ⟨before, s', earlier, ran⟩ := bind_eq_ok ran
  obtain ⟨_, _, later, ran⟩ := bind_eq_ok ran
  cases ran
  rw [List.mapM_cons] at later
  obtain ⟨y, t', own, later⟩ := bind_eq_ok later
  obtain ⟨after, _, behind, later⟩ := bind_eq_ok later
  cases later
  exact ⟨before, y, after, s', t', earlier, own, behind, rfl⟩

/-- An entry call of a run leaves a session that recalls what calls expand to. -/
theorem recalls_runEntry (apart : KeysApart scope) (places : Places view setting scope)
    (sees : view.sees) (fits : ∀ call, InRun setting entries call → call.Fits setting scope)
    (reaches : Reaches setting entries entry s) (recalls : Recalls view setting scope s)
    (ran : runEntry setting entry s = (.ok (.frame frame), t)) : Recalls view setting scope t := by
  have answered : ∀ call, EntryMakes setting entry s call → Recalls view setting scope call.session →
      Ends (fun _ => Recalls view setting scope) (fun _ _ => True) (call.answer setting) :=
    fun call makes => recalls_answer apart places sees fits call (.entry reaches makes)
  obtain ⟨⟨args, body⟩, u, evaluated, ran⟩ := bind_eq_ok (treeOf_of_runEntry ran)
  have behindArgs : Recalls view setting scope u := by
    have kept := (built_evalAll entry.args setting.globals).ends_of_makes Body.start
      (fun _ call follows makes => answered call (.argument follows makes)) (fun _ _ _ => trivial)
      recalls
    exact kept.of_ok evaluated
  change evaluatedTree setting (interpretCall setting) entry args body u = _ at ran
  unfold evaluatedTree at ran
  split at ran
  · cases ran
    exact behindArgs
  · rename_i defined
    replace defined := Bool.not_eq_true _ ▸ defined
    split at ran
    · rename_i own
      obtain ⟨inner, v, called, ran⟩ := bind_eq_ok ran
      cases ran
      exact (answered _ (.own evaluated defined own) behindArgs).of_ok called
    · rename_i several
      replace several := Bool.not_eq_true _ ▸ several
      obtain ⟨⟨ret, body'⟩, v, resolved, ran⟩ := bind_eq_ok ran
      cases ran
      have kept := (built_resolveCall entry.callee entry.loc args setting.globals).ends_of_makes
        body (fun _ call follows makes =>
          answered call (.resolved evaluated defined several follows makes))
        (fun _ _ _ => trivial) behindArgs
      exact kept.of_ok resolved

/-- A run recalls what calls expand to, as long as no entry call meets a limit. -/
theorem recalls_mapM (apart : KeysApart scope) (places : Places view setting scope)
    (sees : view.sees) (fits : ∀ call, InRun setting entries call → call.Fits setting scope)
    {outcomes : List Outcome}
    (ran : entries.mapM (runEntry setting) (Session.start setting.options) = (.ok outcomes, s))
    (frames : ∀ outcome ∈ outcomes, ∃ frame, outcome = .frame frame) :
    Recalls view setting scope s := by
  have before : ∀ done rest outcomes s, entries = done ++ rest →
      done.mapM (runEntry setting) (Session.start setting.options) = (.ok outcomes, s) →
      (∀ outcome ∈ outcomes, ∃ frame, outcome = .frame frame) → Recalls view setting scope s := by
    intro done
    induction done using List.reverseRecOn with
    | nil =>
        rintro rest outcomes s - ran -
        cases ran
        exact (truthful_start view setting scope).toRecalls
    | append_singleton done entry ih =>
        intro rest outcomes s split ran frames
        rw [List.append_assoc] at split
        obtain ⟨first, outcome, others, t, u, earlier, own, nothing, rfl⟩ := mapM_eq_ok ran
        cases nothing
        obtain ⟨frame, rfl⟩ := frames outcome (List.mem_append_right _ List.mem_cons_self)
        have recalls := ih _ first t split earlier fun outcome member =>
          frames outcome (List.mem_append_left _ member)
        exact recalls_runEntry apart places sees fits ⟨done, _, first, split, earlier⟩ recalls own
  exact before entries [] outcomes s (List.append_nil entries).symm ran frames

/-- The outcomes of a run are those of its entry calls, one after the other. -/
theorem exists_mapM_of_run {file : String} {result : RunResult}
    (ran : run setting file entries = .ok result) :
    ∃ s, entries.mapM (runEntry setting) (Session.start setting.options) =
      (.ok result.outcomes, s) := by
  have done : ∃ s, runEntries setting file entries (Session.start setting.options) =
      (.ok result, s) := ⟨_, Prod.ext ran rfl⟩
  obtain ⟨s, done⟩ := done
  obtain ⟨_, _, cleared, done⟩ := bind_eq_ok done
  cases cleared
  obtain ⟨outcomes, t, entered, done⟩ := bind_eq_ok done
  obtain ⟨_, _, counted, done⟩ := bind_eq_ok done
  cases done
  exact ⟨t, entered⟩

/-- An outcome of a run is that of its entry call behind the entry calls before it. -/
theorem exists_runEntry_of_run {file : String} {result : RunResult} {k : Nat} {outcome : Outcome}
    (ran : run setting file entries = .ok result) (called : entries[k]? = some entry)
    (answered : result.outcomes[k]? = some outcome) :
    ∃ s t, (entries.take k).mapM (runEntry setting) (Session.start setting.options) =
        (.ok (result.outcomes.take k), s) ∧ runEntry setting entry s = (.ok outcome, t) := by
  obtain ⟨u, ran⟩ := exists_mapM_of_run ran
  obtain ⟨within, own⟩ := List.getElem?_eq_some_iff.1 called
  rw [← List.take_append_drop k entries, List.drop_eq_getElem_cons within, own] at ran
  obtain ⟨before, first, rest, s, t, earlier, here, -, all⟩ := mapM_eq_ok ran
  have answers := ((idle_start.ends_mapM (entries.take k)).of_ok earlier).1
  have length : before.length = k := by
    rw [← answers.length_eq, List.length_take, Nat.min_eq_left (Nat.le_of_lt within)]
  rw [all, List.getElem?_append_right (Nat.le_of_eq length), length, Nat.sub_self] at answered
  cases answered
  have taken : result.outcomes.take k = before := by rw [all, ← length, List.take_left]
  rw [taken]
  exact ⟨s, t, earlier, here⟩

/-- A run without entry calls makes no calls. -/
theorem not_inRun_nil {made : Call} : ¬ InRun setting [] made := by
  intro inRun
  induction inRun with
  | entry reaches _ =>
      obtain ⟨done, rest, _, empty, -⟩ := reaches
      simp at empty
  | nested _ _ ih => exact ih

/-- In any run, an entry call that has an expansion comes to it, if the calls before it fit. -/
theorem alike_expansion (apart : KeysApart scope) (places : Places view setting scope)
    (sees : view.sees) {file : String} {result : RunResult} {k : Nat} {expansion : Frame}
    (ran : run setting file entries = .ok result) (called : entries[k]? = some entry)
    (answered : result.outcomes[k]? = some (.frame frame))
    (frames : ∀ outcome ∈ result.outcomes, ∃ frame, outcome = .frame frame)
    (expands : EntryExpands setting scope entry expansion)
    (fits : ∀ call, InRun setting (entries.take k) call → call.Fits setting scope) :
    frame.Alike view expansion := by
  obtain ⟨s, t, earlier, here⟩ := exists_runEntry_of_run ran called answered
  have recalls := recalls_mapM apart places sees fits earlier fun outcome member =>
    frames outcome (List.mem_of_mem_take member)
  have idle := ((idle_start.ends_mapM (entries.take k)).of_ok earlier).2.idle
  exact (recalls.truthful idle.orderly).alike_treeOf apart places sees idle.stack expands here

/-- What an entry call returns and reports in a run with others is what it returns and reports in a
    run of its own, if it has an expansion and the calls before it fit. Where dispatch mixes no
    built-in methods with other ones, the places of the reports are the same as well. -/
theorem tree_eq_alone (setting : Setting) (scope : String → List Ty → Bool)
    (apart : KeysApart scope) (file : String) (entries : List EntryCall) (k : Nat)
    (entry : EntryCall) (called : entries[k]? = some entry) (result alone : RunResult)
    (ran : run setting file entries = .ok result) (ranAlone : run setting file [entry] = .ok alone)
    (frames : ∀ outcome ∈ result.outcomes, ∃ frame, outcome = .frame frame) (warm cold : Frame)
    (answered : result.outcomes[k]? = some (.frame warm))
    (answeredAlone : alone.outcomes = [.frame cold])
    (expands : ∃ frame, EntryExpands setting scope entry frame)
    (fits : ∀ call, InRun setting (entries.take k) call → call.Fits setting scope) :
    warm.ret = cold.ret ∧ warm.records = cold.records ∧
      ((∀ callee args, scope callee args = true → Unmixed setting callee args) →
        warm.collectErrors = cold.collectErrors) := by
  obtain ⟨expansion, expands⟩ := expands
  have same (view : View) (places : Places view setting scope) (sees : view.sees) :
      warm.Alike view cold := by
    refine (alike_expansion apart places sees ran called answered frames expands fits).trans
      (Frame.Alike.symm ?_)
    refine alike_expansion apart places sees ranAlone (k := 0) rfl (by rw [answeredAlone]; rfl) ?_
      expands ?_
    · intro outcome member
      rw [answeredAlone, List.mem_singleton] at member
      exact ⟨cold, member⟩
    · intro call inRun
      exact absurd inRun not_inRun_nil
  have records := same .records (.inl View.samePlace_records) trivial
  refine ⟨records.ret, records.records, fun unmixed => ?_⟩
  have located := (same .located (.inr unmixed) trivial).tree trivial
  exact (List.map_id _).symm.trans (located.trans (List.map_id _))

/-! ## Small programs -/

/-- Without built-in methods, no dispatch mixes them with other ones. -/
theorem unmixed_of_bodies (bodies : ∀ m ∈ setting.table.methods, m.intrinsic = none)
    (callee : String) (args : List Ty) : Unmixed setting callee args := by
  intro found answer
  right
  rw [List.any_eq_false]
  intro first member
  obtain ⟨m, registered, matched⟩ := exists_of_mem_matched answer member
  obtain ⟨rfl, -⟩ := method_of_matchMethod matched
  simp [Match.isIntrinsic, bodies _ registered]

/-- The tree of an entry call, unless the call met a limit. -/
def Outcome.tree? : Outcome → Option Frame
  | .frame tree => some tree
  | .failure .. => none

/-- The trees of the entry calls of a run, unless one of them met a limit. -/
def treesOf (setting : Setting) (entries : List EntryCall) : Option (List Frame) :=
  (run setting "main" entries).toOption.bind fun result => result.outcomes.mapM Outcome.tree?

theorem eq_map_of_mapM {outcomes : List Outcome} {trees : List Frame}
    (read : outcomes.mapM Outcome.tree? = some trees) : outcomes = trees.map .frame := by
  induction outcomes generalizing trees with
  | nil =>
      cases read
      rfl
  | cons outcome outcomes ih =>
      rw [List.mapM_cons] at read
      obtain ⟨tree, first, read⟩ := Option.bind_eq_some_iff.1 read
      obtain ⟨others, rest, read⟩ := Option.bind_eq_some_iff.1 read
      cases read
      cases outcome with
      | frame =>
          cases first
          rw [ih rest]
          rfl
      | failure => cases first

theorem exists_of_treesOf {trees : List Frame} (found : treesOf setting entries = some trees) :
    ∃ result, run setting "main" entries = .ok result ∧ result.outcomes = trees.map .frame := by
  unfold treesOf at found
  cases ran : run setting "main" entries with
  | error fault =>
      rw [ran] at found
      cases found
  | ok result =>
      rw [ran] at found
      exact ⟨result, rfl, eq_map_of_mapM found⟩

namespace Examples

/-- The call of `g`, which dispatch rejects. -/
def rejectedCall : EntryCall := literalCall "g" [typeB] (line 3)

/-- The call of `f`, which calls `f` and `g`. -/
def repeatingCall : EntryCall := literalCall "f" [typeB] (line 4)

/-- The first call of a run that begins with the rejected one. -/
def firstCall : Call :=
  ⟨100, "g", [typeB], line 3, Session.start (repeating 2).options⟩

theorem eq_firstCall {made : Call} (inRun : InRun (repeating 2) [rejectedCall] made) :
    made = firstCall := by
  have evaluated : evalAll (repeating 2) (interpretCall (repeating 2)) rejectedCall.args
      (repeating 2).globals Body.start firstCall.session =
        (.ok ([typeB], Body.start), firstCall.session) := rfl
  induction inRun with
  | entry reaches makes =>
      obtain ⟨done, rest, outcomes, same, ran⟩ := reaches
      obtain rfl : done = [] := by
        cases done with
        | nil => rfl
        | cons earlier done => simp at same
      cases same
      cases ran
      cases makes with
      | argument follows makes =>
          have quiet := follows probe
          exact absurd makes (Script.not_makes (x := ([typeB], Body.start))
            (t := firstCall.session) (quiet ▸ rfl))
      | own ran _ _ =>
          cases evaluated.symm.trans ran
          rfl
      | resolved ran _ several _ _ =>
          cases evaluated.symm.trans ran
          exact absurd several (by decide +kernel)
  | nested before nested ih =>
      subst ih
      obtain ⟨enters, begins, follows, makes⟩ := nested
      have rejected : lookup (repeating 2).hierarchy (repeating 2).table "g" [typeB] = .noMethod :=
        lookup_eq_noMethod_iff.2 (by decide +kernel)
      have quiet : dispatchPass (repeating 2) probe "g" [typeB] firstCall.site =
          pure (noMethodFrame firstCall.site [typeB]) := by
        unfold dispatchPass
        rw [rejected]
      exact absurd makes (Script.not_makes (congrFun ((follows probe).symm.trans quiet) _))

/-- Behind the rejected call, the call of `f` finds the rejection and reports it where `f` calls
    `g`. -/
theorem tree_eq_alone_repeating :
    ∃ first warm cold,
      treesOf (repeating 2) [rejectedCall, repeatingCall] = some [first, warm] ∧
      treesOf (repeating 2) [repeatingCall] = some [cold] ∧
      warm.ret = cold.ret ∧ warm.collectErrors = cold.collectErrors ∧
      cold.collectErrors = [Diagnostic.noMethod { callee := "g", loc := line 2 } [typeB]] := by
  obtain ⟨trees, found, two⟩ := Option.map_eq_some_iff.1
    (show (treesOf (repeating 2) [rejectedCall, repeatingCall]).map List.length = some 2 by
      decide +kernel)
  obtain ⟨first, warm, rfl⟩ := List.length_eq_two.1 two
  obtain ⟨alone, foundAlone, errors⟩ := Option.map_eq_some_iff.1
    (show (treesOf (repeating 2) [repeatingCall]).map (List.map Frame.collectErrors) =
      some [[Diagnostic.noMethod { callee := "g", loc := line 2 } [typeB]]] by decide +kernel)
  obtain ⟨cold, rfl, reported⟩ := List.map_eq_singleton_iff.1 errors
  obtain ⟨result, ran, outcomes⟩ := exists_of_treesOf found
  obtain ⟨resultAlone, ranAlone, outcomesAlone⟩ := exists_of_treesOf foundAlone
  have expands : ∃ frame, EntryExpands (repeating 2) (isPlainCall (repeating 2).hierarchy)
      repeatingCall frame := by
    obtain ⟨frame, expanded, -⟩ := exists_of_any
      (show (treeOf (repeating 2) (expand (repeating 2) (isPlainCall (repeating 2).hierarchy) 3 [])
        repeatingCall firstCall.session).1.toOption.any (fun _ => true) = true by decide +kernel)
    exact ⟨frame, 3, _, _, Prod.ext expanded rfl⟩
  have fits : ∀ call, InRun (repeating 2) ([rejectedCall, repeatingCall].take 1) call →
      call.Fits (repeating 2) (isPlainCall (repeating 2).hierarchy) := by
    intro call inRun
    rw [eq_firstCall inRun]
    refine ⟨by decide +kernel, fun _ => ?_⟩
    obtain ⟨frame, expanded, -⟩ := exists_of_any
      (show (expand (repeating 2) (isPlainCall (repeating 2).hierarchy) 1 [] "g" [typeB]
        firstCall.site firstCall.session).1.toOption.any (fun _ => true) = true by decide +kernel)
    exact ⟨1, firstCall.session, frame, _, Prod.ext expanded rfl⟩
  have same := tree_eq_alone (repeating 2) (isPlainCall (repeating 2).hierarchy)
    (keysApart_isPlainCall _) "main" [rejectedCall, repeatingCall] 1 repeatingCall rfl result
    resultAlone ran ranAlone (by simp [outcomes]) warm cold (by simp [outcomes]) outcomesAlone
    expands fits
  have bodies : ∀ m ∈ (repeating 2).table.methods, m.intrinsic = none := by decide +kernel
  exact ⟨first, warm, cold, found, foundAlone, same.1,
    same.2.2 fun callee args _ => unmixed_of_bodies bodies callee args, reported⟩

/-- `f` and `g` call each other, and `g` reports a name that nothing binds. -/
def cyclic : Setting :=
  program
    [method 1 "f" .any [] (callAt 1 "g" param),
      method 2 "g" .any [.name "unbound" (line 2)] (callAt 2 "f" param)] [] {}

/-- Under a call with the one type, `g` is called with the other one from the same place. -/
def turning : Setting :=
  program
    [method 1 "f" .any [] (callAt 1 "g" param), method 2 "g" typeA [] (callAt 2 "k" (value typeB)),
      method 3 "g" typeB [] param, method 4 "k" .any [] (callAt 4 "f" param)] []
    { wideningThreshold := 0 }

/-- Trees with different numbers of diagnostics do not have the same ones. -/
theorem exists_not_perm {a b c : Nat}
    (counts : (treesOf setting entries).map (List.map fun tree => tree.collectErrors.length) =
      some [a, b])
    (countAlone : (treesOf setting [entry]).map (List.map fun tree => tree.collectErrors.length) =
      some [c]) (different : b ≠ c) :
    ∃ first warm cold, treesOf setting entries = some [first, warm] ∧
      treesOf setting [entry] = some [cold] ∧ ¬ warm.collectErrors.Perm cold.collectErrors := by
  obtain ⟨trees, found, counts⟩ := Option.map_eq_some_iff.1 counts
  obtain ⟨alone, foundAlone, countAlone⟩ := Option.map_eq_some_iff.1 countAlone
  obtain ⟨first, _, rfl, -, counts⟩ := List.map_eq_cons_iff.1 counts
  obtain ⟨warm, rfl, rfl⟩ := List.map_eq_singleton_iff.1 counts
  obtain ⟨cold, rfl, rfl⟩ := List.map_eq_singleton_iff.1 countAlone
  exact ⟨first, warm, cold, found, foundAlone, fun same => different same.length_eq⟩

/-- What an entry call finds shows in its diagnostics if it is part of a cycle that an entry call
    before it came to or if different calls share a key, and in what it returns if a call within it
    was widened before. -/
theorem memoization_shows :
    (∃ first warm cold,
      treesOf cyclic [literalCall "f" [typeA] (line 3), literalCall "g" [typeA] (line 4)] =
        some [first, warm] ∧
      treesOf cyclic [literalCall "g" [typeA] (line 4)] = some [cold] ∧
      ¬ warm.collectErrors.Perm cold.collectErrors) ∧
    (∃ first warm cold,
      treesOf sharing [literalCall "f" [typeA] (line 5), literalCall "f" [typeB] (line 6)] =
        some [first, warm] ∧
      treesOf sharing [literalCall "f" [typeB] (line 6)] = some [cold] ∧
      ¬ warm.collectErrors.Perm cold.collectErrors) ∧
    ∃ first warm cold,
      treesOf turning [literalCall "f" [typeA] (line 5), literalCall "k" [typeB] (line 6)] =
        some [first, warm] ∧
      treesOf turning [literalCall "k" [typeB] (line 6)] = some [cold] ∧
      warm.ret ≠ cold.ret := by
  refine ⟨exists_not_perm (a := 1) (b := 2) (c := 1) ?_ ?_ ?_,
    exists_not_perm (a := 0) (b := 0) (c := 1) ?_ ?_ ?_, ?_⟩
  iterate 6 decide +kernel
  obtain ⟨trees, found, rets⟩ := Option.map_eq_some_iff.1
    (show (treesOf turning
      [literalCall "f" [typeA] (line 5), literalCall "k" [typeB] (line 6)]).map
        (List.map fun tree => tree.ret.id) = some ["Any", "Any"] by decide +kernel)
  obtain ⟨alone, foundAlone, retAlone⟩ := Option.map_eq_some_iff.1
    (show (treesOf turning [literalCall "k" [typeB] (line 6)]).map
      (List.map fun tree => tree.ret.id) = some ["B"] by decide +kernel)
  obtain ⟨first, _, rfl, -, rets⟩ := List.map_eq_cons_iff.1 rets
  obtain ⟨warm, rfl, ret⟩ := List.map_eq_singleton_iff.1 rets
  obtain ⟨cold, rfl, own⟩ := List.map_eq_singleton_iff.1 retAlone
  refine ⟨first, warm, cold, found, foundAlone, fun same => ?_⟩
  rw [same, own] at ret
  exact absurd ret (by decide)

end Examples

end Multimethod.Inference
