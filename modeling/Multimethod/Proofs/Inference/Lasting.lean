import Multimethod.Proofs.Inference.Recalling
import Multimethod.Proofs.Inference.Sealing

/-!
# What lasts in a session

A call that is answered leaves what was known of other calls in place. Finished results stay, and so
do the placeholders of the calls on the stack. Provisional results that were valid stay until a
placeholder moves.
-/

namespace Multimethod.Inference

/-- What of a session is found again in a later one: finished results, what is known of the pending
    calls and, if no placeholder has moved since, the provisional results that were valid. -/
structure Lasts (s t : Session) : Prop where
  generation : s.generation ≤ t.generation
  finished : ∀ key result, s.cache.find? key = some (.finished result) →
    t.cache.find? key = some (.finished result)
  pending : ∀ key p, s.cache.find? key = some (.pending p) →
    ∃ met, t.cache.find? key = some (.pending { p with reentered := met })
  shelved : t.generation = s.generation → ∀ key memo, s.cache.find? key = none →
    (s.provisional.find? key).filter (isCurrent s) = some memo →
      t.cache.find? key = none ∧ (t.provisional.find? key).filter (isCurrent t) = some memo

variable {setting : Setting} {s t u : Session} {key other : String} {p : Placeholder}
  {memo : Provisional} {call : Call} {frame : Frame} {α : Type}

/-! ## Provisional results -/

/-- A provisional result stays valid while no placeholder moves and the call it depends on is
    pending. -/
theorem isCurrent_of_lasting (generation : t.generation = s.generation)
    (pending : ∀ key p, s.cache.find? key = some (.pending p) →
      ∃ met, t.cache.find? key = some (.pending { p with reentered := met }))
    (current : isCurrent s memo = true) : isCurrent t memo = true := by
  unfold isCurrent at current ⊢
  rw [Bool.and_eq_true, Option.any_eq_true] at current ⊢
  obtain ⟨same, p, found, serial⟩ := current
  obtain ⟨met, later⟩ := pending _ p (find?_of_pending? found)
  exact ⟨by rw [generation]; exact same, _, pending?_of_find? later, serial⟩

theorem Lasts.refl (s : Session) : Lasts s s where
  generation := Nat.le_refl _
  finished _ _ found := found
  pending _ p found := ⟨p.reentered, found⟩
  shelved _ _ _ unknown found := ⟨unknown, found⟩

theorem Lasts.trans (first : Lasts s t) (second : Lasts t u) : Lasts s u where
  generation := first.generation.trans second.generation
  finished key result found := second.finished key result (first.finished key result found)
  pending key p found := by
    obtain ⟨met, found⟩ := first.pending key p found
    obtain ⟨met, found⟩ := second.pending key _ found
    exact ⟨met, found⟩
  shelved same key memo unknown found := by
    have before := first.generation
    have behind := second.generation
    obtain ⟨unknown, found⟩ := first.shelved (by omega) key memo unknown found
    exact second.shelved (by omega) key memo unknown found

/-! ## The steps of a call -/

/-- What happens to a key of which nothing was known leaves everything else as it was. -/
theorem Lasts.elsewhere (lasts : Lasts s t) (unknown : s.cache.find? key = none)
    (unshelved : (s.provisional.find? key).filter (isCurrent s) = none)
    (generation : t.generation ≤ u.generation)
    (cache : ∀ other, key ≠ other → u.cache.find? other = t.cache.find? other)
    (provisional : ∀ other, key ≠ other → u.provisional.find? other = t.provisional.find? other) :
    Lasts s u := by
  have pending : ∀ other p, s.cache.find? other = some (.pending p) →
      ∃ met, u.cache.find? other = some (.pending { p with reentered := met }) := by
    intro other p found
    obtain ⟨met, later⟩ := lasts.pending other p found
    refine ⟨met, (cache other ?_).trans later⟩
    rintro rfl
    cases unknown.symm.trans found
  refine ⟨lasts.generation.trans generation, fun other result found => ?_, pending, ?_⟩
  · refine (cache other ?_).trans (lasts.finished other result found)
    rintro rfl
    cases unknown.symm.trans found
  · intro same other memo absent found
    have different : key ≠ other := by
      rintro rfl
      cases unshelved.symm.trans found
    have before := lasts.generation
    obtain ⟨dropped, held⟩ := lasts.shelved (by omega) other memo absent found
    have current := (Option.filter_eq_some_iff.1 found).2
    refine ⟨(cache other different).trans dropped, Option.filter_eq_some_iff.2 ⟨?_, ?_⟩⟩
    · rw [provisional other different]
      exact (Option.filter_eq_some_iff.1 held).1
    · exact isCurrent_of_lasting same pending current

/-- The stack does not matter. -/
theorem Lasts.onStack (lasts : Lasts s t) (stack : List Active) :
    Lasts s { t with stack := stack } :=
  ⟨lasts.generation, lasts.finished, lasts.pending, lasts.shelved⟩

/-- Meeting a placeholder moves nothing. -/
theorem lasts_reentered (found : s.cache.find? key = some (.pending p)) :
    Lasts s { s with cache := s.cache.setPlaceholder key { p with reentered := true } } := by
  have pending : ∀ other q, s.cache.find? other = some (.pending q) →
      ∃ met, (s.cache.setPlaceholder key { p with reentered := true }).find? other =
        some (.pending { q with reentered := met }) := by
    intro other q held
    rw [find?_setPlaceholder]
    split
    · rename_i same
      rw [← same, found] at held
      cases held
      exact ⟨true, rfl⟩
    · exact ⟨q.reentered, held⟩
  refine ⟨Nat.le_refl _, fun other result held => ?_, pending, fun _ other memo unknown held => ?_⟩
  · exact finished_setPlaceholder found held
  · obtain ⟨held, current⟩ := Option.filter_eq_some_iff.1 held
    refine ⟨?_, Option.filter_eq_some_iff.2 ⟨held, isCurrent_of_lasting (s := s) rfl pending current⟩⟩
    change (s.cache.setPlaceholder key _).find? other = none
    rw [find?_setPlaceholder, if_neg, unknown]
    rintro rfl
    cases unknown.symm.trans found

section Analysis

variable (new : call.IsNew setting)
include new

theorem Lasts.enter (lasts : Lasts call.session s) {args : List Ty}
    (entered : enter call.callee args call.site (call.key setting) s = (.ok (), t)) :
    Lasts call.session t := by
  obtain ⟨cache, begun, rfl⟩ := enter_eq_ok entered
  refine (lasts.elsewhere (u := { s with cache := cache }) new.unknown new.unshelved
    (Nat.le_refl _) (fun other different => ?_) fun _ _ => rfl).onStack _
  exact (find?_begin begun).trans (if_neg different)

theorem Lasts.moved (lasts : Lasts call.session s) (p : Placeholder) (next : Ty)
    (history : List Ty) : Lasts call.session (s.moved (call.key setting) p next history) := by
  refine lasts.elsewhere new.unknown new.unshelved (Nat.le_succ _) (fun other different => ?_)
    fun _ _ => rfl
  exact (find?_setPlaceholder _ _ _ _).trans (if_neg different)

theorem Lasts.store (lasts : Lasts call.session s) {dependsOn : Option Nat} {converged : Bool}
    (stored : store (call.key setting) dependsOn frame converged s = (.ok (), t)) :
    Lasts call.session t := by
  obtain ⟨_, _, got, stored⟩ := bind_eq_ok stored
  cases got
  cases head : headOf s.stack dependsOn with
  | some found =>
      rw [head] at stored
      cases stored
      exact (lasts.elsewhere (u := { s with cache := s.cache.discard (call.key setting), provisional := _ })
        new.unknown new.unshelved (Nat.le_refl _)
        (fun other different => find?_discard_of_ne different)
        fun other different => (Assoc.find?_insert _ _ _ _).trans (if_neg different)).onStack _
  | none =>
      rw [head] at stored
      obtain ⟨cache, _, sealing, stored⟩ := bind_eq_ok stored
      obtain ⟨finished, rfl⟩ := liftChecked_eq_ok sealing
      cases stored
      exact lasts.elsewhere new.unknown new.unshelved (Nat.le_refl _)
        (fun other different => (find?_finish finished).trans (if_neg different))
        fun other different => (Assoc.find?_erase _ _ _).trans (if_neg different)

end Analysis

/-! ## Calls -/

/-- What every call of a script leaves in place is in place behind the script. -/
theorem Script.lasts {script : Script α} {room : Nat} {x : α}
    (calls : ∀ inner : Call, inner.room = room → ∀ frame t,
      inner.answer setting = (.ok frame, t) → Lasts inner.session t)
    (ran : script.run (interpret setting room) s = (.ok x, t)) : Lasts s t := by
  have ends : Ends (fun _ => Lasts s) (fun _ _ => True) (script.run (interpret setting room) s) := by
    refine script.ends (fun callee args loc u before => ?_) (fun _ _ _ _ => trivial) s (.refl s)
    refine ends_of_forall_ok fun frame v answered => ?_
    exact before.trans (calls ⟨room, callee, args, loc, u⟩ rfl frame v answered)
  exact ends.of_ok ran

/-- A call that is analysed leaves what was known of other calls in place, if those within it do. -/
theorem lasts_of_analysis (new : call.IsNew setting)
    (inside : ∀ inner : Call, inner.room = call.room - 1 → ∀ frame t,
      inner.answer setting = (.ok frame, t) → Lasts inner.session t)
    (done : call.analysis setting call.session = (.ok frame, t)) : Lasts call.session t := by
  obtain ⟨u, v, converged, entered, settled, stored⟩ := analysis_eq_ok done
  have passes : ∀ t, Lasts call.session t →
      Ends (fun _ => Lasts call.session) (fun _ _ => True) (call.pass setting t) := by
    intro t before
    obtain ⟨script, follows⟩ := call.exists_hasScript setting
    rw [show call.pass setting = _ from follows _]
    exact ends_of_forall_ok fun _ _ passed => before.trans (script.lasts inside passed)
  have fixed : Ends (fun _ => Lasts call.session) (fun _ _ => True)
      (fixpoint setting (call.pass setting) (call.key setting) u) :=
    ends_fixpoint passes (fun t p next history before _ => before.moved new p next history)
      ((Lasts.refl _).enter new entered)
  exact ((fixed.of_ok settled).onStack _).store new stored

/-- A call that is answered leaves what was known of other calls in place. -/
theorem lasts_of_answer (call : Call) (frame : Frame) (t : Session)
    (answered : call.answer setting = (.ok frame, t)) : Lasts call.session t := by
  have ends : Ends (fun _ => Lasts call.session) (fun _ _ => True) (call.answer setting) := by
    refine Call.ends_answer ?finished ?pending ?shelved ?full ?analysed
    case finished => exact fun _ _ => .refl _
    case pending => exact fun _ found => (lasts_reentered found).onStack _
    case shelved => exact fun _ _ _ => (Lasts.refl _).onStack _
    case full => exact fun _ _ => trivial
    case analysed =>
      intro new room
      refine ends_of_forall_ok fun frame t done => ?_
      exact lasts_of_analysis new (fun inner less => lasts_of_answer inner) done
  exact ends.of_ok answered
termination_by call.room
decreasing_by omega

end Multimethod.Inference
