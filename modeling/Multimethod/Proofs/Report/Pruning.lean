import Multimethod.Proofs.Frame
import Multimethod.Report.Basic

/-!
# No diagnostic is lost

A tree is pruned before it is reported and again whenever it is rebuilt from the cache. What is
dropped leads to no diagnostic, so the diagnostics of a pruned tree are those of the whole tree,
in their order, and pruning a second time drops nothing more.
-/

namespace Multimethod

namespace Frame

mutual

theorem countErrors_eq (frame : Frame) : frame.countErrors = frame.collectErrors.length := by
  match frame with
  | ⟨site, args, ret, status, origin, errors, children⟩ =>
      rw [countErrors, collectErrors, List.length_append, countAllErrors_eq children]

theorem countAllErrors_eq (frames : List Frame) :
    countAllErrors frames = (collectAllErrors frames).length := by
  match frames with
  | [] => rw [countAllErrors, collectAllErrors, List.length_nil]
  | frame :: frames =>
      rw [countAllErrors, collectAllErrors, List.length_append, countErrors_eq frame,
        countAllErrors_eq frames]

end

mutual

theorem hasErrors_iff (frame : Frame) : frame.hasErrors = true ↔ frame.collectErrors ≠ [] := by
  match frame with
  | ⟨site, args, ret, status, origin, errors, children⟩ =>
      rw [hasErrors, collectErrors, Bool.or_eq_true, someHasErrors_iff children,
        Bool.not_eq_true', ← Bool.not_eq_true, List.isEmpty_iff]
      simp only [ne_eq, List.append_eq_nil_iff, Classical.not_and_iff_not_or_not]

theorem someHasErrors_iff (frames : List Frame) :
    someHasErrors frames = true ↔ collectAllErrors frames ≠ [] := by
  match frames with
  | [] => simp [someHasErrors, collectAllErrors]
  | frame :: frames =>
      rw [someHasErrors, collectAllErrors, Bool.or_eq_true, hasErrors_iff frame,
        someHasErrors_iff frames]
      simp only [ne_eq, List.append_eq_nil_iff, Classical.not_and_iff_not_or_not]

end

theorem hasErrors_prune (frame : Frame) : frame.prune.hasErrors = frame.hasErrors := by
  rw [Bool.eq_iff_iff, hasErrors_iff, hasErrors_iff, collectErrors_prune]

mutual

/-- Pruning a second time drops nothing. -/
theorem prune_prune (frame : Frame) : frame.prune.prune = frame.prune := by
  match frame with
  | ⟨site, args, ret, status, origin, errors, children⟩ =>
      rw [prune, prune, pruneAll_pruneAll children]

theorem pruneAll_pruneAll (frames : List Frame) :
    pruneAll (pruneAll frames) = pruneAll frames := by
  match frames with
  | [] => rw [pruneAll, pruneAll]
  | frame :: frames =>
      have rest := pruneAll_pruneAll frames
      rw [pruneAll]
      split
      · rename_i leads
        rw [pruneAll, hasErrors_prune, if_pos leads, prune_prune frame, rest]
      · exact rest

end

mutual

/-- What is left of a tree that leads to a diagnostic leads to one at every frame. -/
theorem leads_of_within_prune (frame : Frame) (leads : frame.hasErrors = true) :
    ∀ g, Within g frame.prune → g.collectErrors ≠ [] := by
  match frame with
  | ⟨site, args, ret, status, origin, errors, children⟩ =>
      intro g within
      rcases within_iff.1 within with rfl | ⟨c, member, below⟩
      · rwa [collectErrors_prune, ← hasErrors_iff]
      · rw [prune] at member
        exact leads_of_mem_pruneAll children c member g below

theorem leads_of_mem_pruneAll (frames : List Frame) :
    ∀ c ∈ pruneAll frames, ∀ g, Within g c → g.collectErrors ≠ [] := by
  match frames with
  | [] => simp [pruneAll]
  | frame :: frames =>
      have rest := leads_of_mem_pruneAll frames
      rw [pruneAll]
      split
      · rename_i leads
        intro c member
        rcases List.mem_cons.1 member with rfl | member
        · exact leads_of_within_prune frame leads
        · exact rest c member
      · exact rest

end

theorem children_prune (frame : Frame) : frame.prune.children = pruneAll frame.children := by
  cases frame
  rw [prune]

end Frame

open Inference Multimethod.Frame

/-! ## Reports -/

/-- The diagnostics of an entry call; one that met a limit has none. -/
def Inference.Outcome.diagnostics : Outcome → List Diagnostic
  | .frame tree => tree.collectErrors
  | .failure _ _ _ => []

theorem Report.collectAllErrors_entries (outcomes : List Outcome) :
    collectAllErrors (outcomes.filterMap Report.entryOf) =
      outcomes.flatMap Outcome.diagnostics := by
  induction outcomes with
  | nil => rfl
  | cons outcome outcomes ih =>
      rw [List.flatMap_cons, ← ih]
      cases outcome with
      | failure call loc message =>
          rw [List.filterMap_cons_none (by rw [Report.entryOf])]
          rfl
      | frame tree =>
          rw [Outcome.diagnostics]
          cases leads : tree.hasErrors with
          | true =>
              rw [List.filterMap_cons_some (by rw [Report.entryOf, if_pos leads]),
                collectAllErrors, collectErrors_prune]
          | false =>
              rw [List.filterMap_cons_none (by simp [Report.entryOf, leads]),
                hasErrors_eq_false tree leads, List.nil_append]

/-! ## Rebuilt frames -/

/-- A frame that is rebuilt at another call carries the diagnostics of its source. Its own ones
    move to the new place, unless they were found in the body of a method. -/
theorem Inference.collectErrors_frameFromCache (source : Frame) (site : CallSite)
    (args : List Ty) :
    (frameFromCache source site args).collectErrors =
      source.errors.map (fun d =>
          { d with
            loc :=
              if source.origin = .interpreted ∧ source.status ≠ .errored then d.loc
              else site.loc })
        ++ collectAllErrors source.children := by
  rw [collectErrors_eq]
  have children : (frameFromCache source site args).children = pruneAll source.children := rfl
  rw [children, collectAllErrors_pruneAll]
  congr 1
  by_cases stays : source.origin = .interpreted ∧ source.status ≠ .errored
  · simp [frameFromCache, stays]
  · have moves : (source.origin != .interpreted || source.status == .errored) = true := by
      by_cases origin : source.origin = .interpreted
      · simpa [origin] using stays
      · simp [origin]
    simp only [frameFromCache, moves, if_true, if_neg stays]

/-- Pruning and rebuilding lose no diagnostic, and a report counts those of all entry calls. -/
theorem pruning_keeps_diagnostics :
    (∀ frame : Frame,
      frame.prune.collectErrors = frame.collectErrors ∧
      frame.countErrors = frame.collectErrors.length ∧
      (frame.hasErrors = true ↔ 0 < frame.countErrors) ∧
      (∀ c ∈ frame.prune.children, ∀ g, Within g c → g.collectErrors ≠ []) ∧
      frame.prune.prune = frame.prune) ∧
    (∀ result : RunResult,
      (Report.ofRun result).errorCount =
        (result.outcomes.flatMap Outcome.diagnostics).length) ∧
    (∀ (source : Frame) (site : CallSite) (args : List Ty),
      source.collectErrors = source.errors ++ collectAllErrors source.children ∧
      (frameFromCache source site args).collectErrors =
        source.errors.map (fun d =>
            { d with
              loc :=
                if source.origin = .interpreted ∧ source.status ≠ .errored then d.loc
                else site.loc })
          ++ collectAllErrors source.children) := by
  refine ⟨fun frame => ⟨?_, ?_, ?_, ?_, ?_⟩, fun result => ?_, fun source site args => ⟨?_, ?_⟩⟩
  · exact collectErrors_prune frame
  · exact countErrors_eq frame
  · rw [hasErrors_iff, countErrors_eq, List.length_pos_iff]
  · rw [children_prune]
    exact leads_of_mem_pruneAll frame.children
  · exact prune_prune frame
  · rw [← Report.collectAllErrors_entries, ← countAllErrors_eq]
    rfl
  · exact collectErrors_eq source
  · exact collectErrors_frameFromCache source site args

end Multimethod
