import Multimethod.Proofs.Inference.Consistency
import Multimethod.Proofs.Inference.Entries

/-!
# Stack and cache stay in step

Wherever a run makes or answers a call, the pending entries of the cache are the placeholders of
the frames on the stack, and neither stack nor cache is over its limit. An entry call leaves
nothing behind but finished entries.
-/

namespace Multimethod.Inference

/-- In every session of a run the frames on the stack and the pending entries of the cache match,
    and the limits hold; a call, whatever it comes to, leaves as many frames as it found. Behind an
    entry call the stack is empty, nothing is pending, and what was finished before still is. -/
theorem run_balanced (setting : Setting) (entries : List EntryCall) :
    (∀ s, Visits setting entries s →
      Balanced s.cache s.stack ∧ s.cache.entries.Distinct ∧
        s.stack.length ≤ setting.options.maxCallDepth.toNat ∧
        s.cache.charged ≤ setting.options.maxCacheEntries.toNat) ∧
    (∀ call, InRun setting entries call →
      (call.answer setting).2.stack.length = call.session.stack.length ∧
        (call.answer setting).2.cache.charged ≤ setting.options.maxCacheEntries.toNat) ∧
    ∀ entry s outcome t, Reaches setting entries entry s →
      runEntry setting entry s = (.ok outcome, t) →
        t.stack = [] ∧ (∀ key p, (key, .pending p) ∉ t.cache.entries) ∧
          ∀ key result, s.cache.find? key = some (.finished result) →
            t.cache.find? key = some (.finished result) := by
  refine ⟨fun s visits => ?_, fun call inRun => ?_, fun entry s outcome t reaches ran => ?_⟩
  · have orderly := visits.orderly
    exact ⟨orderly.toBalanced, orderly.distinct, orderly.height, orderly.charged⟩
  · have keeps := keeps_of_inOrder call inRun.inOrder
    unfold Call.Keeps at keeps
    match call.answer setting, keeps with
    | (.ok frame, t), kept => exact ⟨kept.stack.length, kept.orderly.charged⟩
    | (.error fault, t), halted =>
        obtain ⟨stack, orderly⟩ := halted.orderly
        exact ⟨halted.height, orderly.charged⟩
  · have between := ((reaches.idle.ends_runEntry entry).of_ok ran).2
    refine ⟨between.idle.stack, fun key p pending => ?_, between.finished⟩
    have orderly := between.idle.orderly
    rw [between.idle.stack] at orderly
    obtain ⟨a, none, -⟩ := orderly.owner key p (Assoc.find?_of_mem orderly.distinct pending)
    cases none

/-- A call of `f` from outside. -/
def callOfF : EntryCall := ⟨"f", [.literal .int none default], default⟩

/-- The round trip with room for a single cache entry. -/
def crowdedTrip : Setting := { roundTrip with options := { maxCacheEntries := 1 } }

/-- Whether an entry call met a limit. -/
def Outcome.isFailure : Outcome → Bool
  | frame _ => false
  | failure _ _ _ => true

/-- When `g` meets the limit, `f` is on the stack and pending; then nothing is. -/
theorem run_balanced_crowdedTrip :
    (∃ s, Visits crowdedTrip [callOfF] s ∧ s.stack.map Active.callee = ["f"] ∧
      s.cache.charged = 1 ∧ Balanced s.cache s.stack) ∧
    ∃ outcome t,
      runEntry crowdedTrip callOfF (Session.start crowdedTrip.options) = (.ok outcome, t) ∧
        outcome.isFailure = true ∧ t.stack = [] := by
  let s := Session.start crowdedTrip.options
  let call : Call := ⟨100, "f", [.int], default, s⟩
  let t := (enter call.callee (call.widened crowdedTrip) call.site (call.key crowdedTrip) s).2
  have balanced := run_balanced crowdedTrip [callOfF]
  have reaches : Reaches crowdedTrip [callOfF] callOfF s := ⟨[], [], [], rfl, rfl⟩
  have evaluated : evalAll crowdedTrip (interpretCall crowdedTrip) callOfF.args crowdedTrip.globals
      Body.start s = (.ok ([.int], Body.start), s) := rfl
  have inRun : InRun crowdedTrip [callOfF] call :=
    .entry reaches (.own evaluated (by decide) (by decide +kernel))
  have enters : call.Enters crowdedTrip t :=
    { unknown := rfl, unshelved := rfl, room := by decide, entered := rfl }
  have visits : Visits crowdedTrip [callOfF] t := .begun inRun enters .first
  obtain ⟨outcome, u, ran, failed⟩ := exists_of_succeeds
    (show succeeds Outcome.isFailure (runEntry crowdedTrip callOfF s) = true by decide +kernel)
  exact ⟨⟨t, visits, rfl, rfl, (balanced.1 t visits).1⟩, outcome, u, ran, failed,
    (balanced.2.2 callOfF s outcome u reaches ran).1⟩

end Multimethod.Inference
