import Multimethod.Proofs.Inference.Entries
import Multimethod.Proofs.Inference.Memo

/-!
# What a run recalls

A run also analyses calls that have no expansion: calls that lead back to calls which are still open.
What it finishes of such calls may depend on where they were made. Of every other call it recalls
what the call expands to, as long as the call also has its expansion where it is made.
-/

namespace Multimethod.Inference

/-- Whether a call that has an expansion has one where it is made, in front of the calls that are
    open there. -/
structure Call.Fits (setting : Setting) (scope : String → List Ty → Bool) (call : Call) : Prop where
  plain : scope call.callee (call.widened setting) = true
  here : Expandable setting scope call.callee (call.widened setting) →
    ∃ room t frame t', expand setting scope room (openedOf call.session.stack) call.callee
      (call.widened setting) call.site t = (.ok frame, t')

variable {view : View} {setting : Setting} {scope : String → List Ty → Bool} {α : Type}
  {bad : Fault → Session → Prop} {s t : Session} {key : String} {callee : String} {args : List Ty}
  {call inner : Call} {entry : EntryCall} {entries : List EntryCall} {frame : Frame}
  {p : Placeholder}

/-! ## The steps of a call without an expansion -/

/-- A session that has finished and shelved no more recalls what it did. -/
theorem Recalls.fewer (recalls : Recalls view setting scope s)
    (finished : ∀ key result, t.cache.find? key = some (.finished result) →
      s.cache.find? key = some (.finished result))
    (shelved : t.provisional = s.provisional) : Recalls view setting scope t where
  finished callee args result plain found :=
    recalls.finished callee args result plain (finished _ result found)
  shelved callee args memo plain found := by
    rw [shelved] at found
    exact recalls.shelved callee args memo plain found

theorem finished_of_setPlaceholder {cache : Cache} {other : String} {result : Inferred}
    (found : (cache.setPlaceholder key p).find? other = some (.finished result)) :
    cache.find? other = some (.finished result) := by
  rw [find?_setPlaceholder] at found
  split at found
  · cases found
  · exact found

theorem Recalls.moved (recalls : Recalls view setting scope s) (key : String) (p : Placeholder)
    (next : Ty) (history : List Ty) :
    Recalls view setting scope (s.moved key p next history) :=
  recalls.fewer (fun _ _ => finished_of_setPlaceholder) rfl

theorem Recalls.enter {site : CallSite} {u : Unit} (recalls : Recalls view setting scope s)
    (entered : enter callee args site key s = (.ok u, t)) : Recalls view setting scope t := by
  obtain ⟨cache, begun, rfl⟩ := enter_eq_ok entered
  refine recalls.fewer (fun other result found => ?_) rfl
  rw [find?_begin begun] at found
  split at found
  · cases found
  · exact found

theorem reflects_of_not_expandable (none : ¬Expandable setting scope callee args) (frame : Frame) :
    Reflects view setting scope callee args frame :=
  fun room path loc s s' g expanded => absurd ⟨room, path, loc, s, g, s', expanded⟩ none

/-- Nothing has to be recalled of a call without an expansion. -/
theorem Recalls.store (apart : KeysApart scope) (recalls : Recalls view setting scope s)
    (plain : scope callee args = true) (none : ¬Expandable setting scope callee args)
    (dependsOn : Option Nat) (frame : Frame) (converged : Bool) :
    Ends (fun _ => Recalls view setting scope) (fun _ _ => True)
      (store (Cache.keyOf callee args) dependsOn frame converged s) := by
  unfold Inference.store
  rw [get_bind]
  cases headOf s.stack dependsOn with
  | some head =>
      refine ⟨fun callee' args' result plain' found => ?_, fun callee' args' memo plain' found => ?_⟩
      · refine recalls.finished callee' args' result plain' ?_
        change (s.cache.discard (Cache.keyOf callee args)).find? _ = _ at found
        unfold Cache.discard at found
        split at found
        · change Assoc.find? (Assoc.erase _ _) _ = _ at found
          rw [Assoc.find?_erase] at found
          split at found
          · cases found
          · exact found
        · exact found
      · change Assoc.find? (Assoc.insert _ _ _) _ = _ at found
        rw [Assoc.find?_insert] at found
        split at found
        · rename_i same
          obtain ⟨rfl, rfl⟩ := apart _ _ _ _ plain plain' same
          exact none
        · exact recalls.shelved callee' args' memo plain' found
  | none =>
      dsimp only
      cases finished : s.cache.finish (Cache.keyOf callee args) ⟨frame, converged⟩ with
      | error fault => trivial
      | ok cache => exact recalls.finish apart plain (reflects_of_not_expandable none frame) finished

/-! ## Calls -/

/-- What every call that a script makes keeps is kept by the script. -/
theorem Script.ends_of_makes {room : Nat} {known : Session → Prop} (script : Script α)
    (calls : ∀ call, script.Makes setting room s call → known call.session →
      Ends (fun _ => known) bad (call.answer setting))
    (stray : ∀ (jump : Jump) loc t, bad (.malformed (.strayJump jump.keyword) (some loc)) t)
    (before : known s) : Ends (fun _ => known) bad (script.run (interpret setting room) s) := by
  induction script generalizing s with
  | done x => exact before
  | stray jump loc => exact stray jump loc s
  | call callee args loc next ih =>
      refine Ends.bind (calls _ .here before) fun frame t answered after => ?_
      exact ih frame (fun call makes => calls call (.later answered makes)) after

/-- What every call that a body makes keeps is kept by the body. -/
theorem Built.ends_of_makes {m : Caller → Walk α} (built : Built m) (b : Body) {room : Nat}
    {known : Session → Prop}
    (calls : ∀ (script : Script (α × Body)) call, (script.Describes fun caller => m caller b) →
      script.Makes setting room s call → known call.session →
      Ends (fun _ => known) bad (call.answer setting))
    (stray : ∀ (jump : Jump) loc t, bad (.malformed (.strayJump jump.keyword) (some loc)) t)
    (before : known s) : Ends (fun _ => known) bad (m (interpret setting room) b s) := by
  obtain ⟨script, follows⟩ := built.exists_script b
  rw [show m (interpret setting room) b = _ from follows _]
  exact script.ends_of_makes (fun call => calls script call follows) stray before

theorem Nested.room_lt (nested : Nested setting call inner) : inner.room < call.room := by
  obtain ⟨enters, begins, follows, makes⟩ := nested
  obtain ⟨room, -⟩ := makes.known (fun _ => True) trivial fun _ _ _ _ _ => ends_trivially _
  have := enters.room
  omega

section Analysis

variable (enters : call.Enters setting s)
  (calls : ∀ inner, Nested setting call inner → Recalls view setting scope inner.session →
    Ends (fun _ => Recalls view setting scope) (fun _ _ => True) (inner.answer setting))
include enters calls

theorem recalls_pass {passes : Nat}
    (begins : Begins setting (call.pass setting) (call.key setting) s passes t)
    (recalls : Recalls view setting scope t) :
    Ends (fun _ => Recalls view setting scope) (fun _ _ => True) (call.pass setting t) := by
  obtain ⟨script, follows⟩ := call.exists_hasScript setting
  rw [show call.pass setting = _ from follows _]
  exact script.ends_of_makes (fun inner makes => calls inner (.pass enters begins follows makes))
    (fun _ _ _ => trivial) recalls

theorem recalls_begins {passes : Nat}
    (begins : Begins setting (call.pass setting) (call.key setting) s passes t)
    (recalls : Recalls view setting scope s) : Recalls view setting scope t := by
  induction begins with
  | first => exact recalls
  | again before moves _ ih =>
      obtain ⟨_, _, p, next, history, passed, -, -, -, -, rfl⟩ := nextPass_eq_some moves
      exact ((recalls_pass enters calls before ih).of_ok passed).moved _ p next history

theorem recalls_fixpoint (recalls : Recalls view setting scope s) :
    Ends (fun _ => Recalls view setting scope) (fun _ _ => True)
      (fixpoint setting (call.pass setting) (call.key setting) s) := by
  obtain ⟨_, t, begins, -, ends⟩ :=
    exists_last_pass setting (call.pass setting) (call.key setting) s
  have last := recalls_pass enters calls begins (recalls_begins enters calls begins recalls)
  refine Ends.imp ends ?_ fun _ _ _ => trivial
  rintro r u ⟨frame, passed, -⟩
  exact last.of_ok passed

end Analysis

theorem recalls_analysis (apart : KeysApart scope) (new : call.IsNew setting)
    (room : call.room ≠ 0) (plain : scope call.callee (call.widened setting) = true)
    (none : ¬Expandable setting scope call.callee (call.widened setting))
    (calls : ∀ inner, Nested setting call inner → Recalls view setting scope inner.session →
      Ends (fun _ => Recalls view setting scope) (fun _ _ => True) (inner.answer setting))
    (recalls : Recalls view setting scope call.session) :
    Ends (fun _ => Recalls view setting scope) (fun _ _ => True)
      (call.analysis setting call.session) := by
  refine Ends.bind (ends_trivially _) fun _ t entered _ => ?_
  have inside : Ends (fun _ => Recalls view setting scope) (fun _ _ => True)
      (call.passes setting t) :=
    Ends.bind (recalls_fixpoint ⟨new, room, entered⟩ calls (recalls.enter entered))
      fun _ _ _ after => after
  refine Ends.bind ((ends_popOnExit inside).imp (fun _ _ after => after) fun _ _ _ => trivial) ?_
  rintro ⟨frame, converged, dependsOn⟩ _ - ⟨u, after, rfl⟩
  have popped : Recalls view setting scope { u with stack := u.stack.tail } :=
    ⟨after.finished, after.shelved⟩
  exact Ends.bind (popped.store apart plain none dependsOn frame converged) fun _ _ _ stored => stored

/-! ## Calls with an expansion -/

/-- Where only the calls on the stack are pending, a session that recalls calls is truthful. -/
theorem Recalls.truthful (recalls : Recalls view setting scope s)
    (orderly : Orderly setting.options s.cache s.stack) : Truthful view setting scope s where
  toRecalls := recalls
  pending key p found := by
    obtain ⟨a, member, rfl⟩ := orderly.owner key p found
    exact ⟨_, List.mem_map_of_mem member, (orderly.named a member).symm⟩

/-- A call that repeats none of the open ones keeps its arguments. -/
theorem Call.widened_of_not_repeated {types : List Ty}
    (regular : isRepeated (openedOf call.session.stack) ⟨call.callee, types, call.loc⟩ = false) :
    call.widened setting = call.args :=
  widenRecursiveArgs_of_same fun _ member function place =>
    absurd ⟨function, place⟩ (isRepeated_eq_false regular _ (List.mem_map_of_mem member)).1

/-- A call that has its expansion where it is made is answered as its expansion says. -/
theorem recalls_expandable (apart : KeysApart scope) (places : Places view setting scope)
    (sees : view.sees) (inOrder : call.InOrder setting) (fits : call.Fits setting scope)
    (expandable : Expandable setting scope call.callee (call.widened setting))
    (recalls : Recalls view setting scope call.session) :
    Ends (fun _ => Recalls view setting scope) (fun _ _ => True) (call.answer setting) := by
  obtain ⟨room, t, expansion, t', expanded⟩ := fits.here expandable
  obtain ⟨_, _, _, -, regular, -⟩ := expand_eq_ok expanded
  rw [Call.widened_of_not_repeated regular] at expanded
  refine ends_of_forall_ok fun frame s' answered => ?_
  have faithful := (recalls.truthful inOrder.orderly).faithful (fun _ => none) t
  exact (tracks_interpret apart places sees call.room room _ [] _ call.callee call.args call.loc
    call.session t frame expansion s' t' faithful answered expanded).2.toRecalls

/-! ## Runs -/

/-- A call of a run leaves a session that recalls what calls expand to. -/
theorem recalls_answer (apart : KeysApart scope) (places : Places view setting scope)
    (sees : view.sees) (fits : ∀ call, InRun setting entries call → call.Fits setting scope)
    (call : Call) (inRun : InRun setting entries call)
    (recalls : Recalls view setting scope call.session) :
    Ends (fun _ => Recalls view setting scope) (fun _ _ => True) (call.answer setting) := by
  have inOrder := inRun.inOrder
  by_cases expandable : Expandable setting scope call.callee (call.widened setting)
  · exact recalls_expandable apart places sees inOrder (fits call inRun) expandable recalls
  · refine Call.ends_answer ?finished ?pending ?shelved ?full ?analysed
    case finished => exact fun _ _ => recalls
    case pending => exact fun _ _ => recalls.fewer (fun _ _ => finished_of_setPlaceholder) rfl
    case shelved => exact fun _ _ _ => recalls.fewer (fun _ _ found => found) rfl
    case full => exact fun _ _ => trivial
    case analysed =>
      intro new room
      exact recalls_analysis apart new room (fits call inRun).plain expandable
        (fun inner nested => recalls_answer apart places sees fits inner (.nested inRun nested))
        recalls
termination_by call.room
decreasing_by exact nested.room_lt

end Multimethod.Inference
