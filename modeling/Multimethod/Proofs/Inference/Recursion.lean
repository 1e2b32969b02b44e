import Multimethod.Proofs.Inference.Balance
import Multimethod.Proofs.Inference.Probe
import Multimethod.Proofs.Inference.Signatures

/-!
# Recursion cannot make ever larger signatures

Every frame on the stack of a run was entered with arguments that had been widened against the
frames at its place. So the signatures at one place rise, and whatever limit there is to the depth
of calls, their number is bounded by the threshold of widening and the height of the hierarchy.
-/

namespace Multimethod.Inference

open Multimethod.Lattice

/-- The frames on a stack that share a callee and a call site, outermost first. -/
def framesAt (stack : List Active) (callee : String) (loc : Location) : List Active :=
  (stack.filter fun f => f.callee == callee && f.loc == loc).reverse

/-- Whether every frame on a stack has well-formed arguments that were widened against the frames
    further out. -/
inductive Widened (setting : Setting) : List Active → Prop where
  | none : Widened setting []
  | top {top : Active} {below : List Active} {args : List Ty} (rest : Widened setting below)
      (ground : ∀ t ∈ args, t.ground setting.hierarchy = true)
      (widened : top.args = widenRecursiveArgs setting below top.callee args
        { callee := top.callee, loc := top.loc }) : Widened setting (top :: below)

variable {setting : Setting} {entries : List EntryCall} {entry : EntryCall} {call inner : Call}
  {stack old new : List Active} {s t : Session} {callee : String} {loc : Location}
  {args : List Ty} {top : Active} {below : List Active}

/-! ## Frames at one place -/

theorem mem_framesAt {f : Active} :
    f ∈ framesAt stack callee loc ↔ f ∈ stack ∧ f.callee = callee ∧ f.loc = loc := by
  simp [framesAt]

theorem framesAt_cons (top : Active) (below : List Active) (callee : String) (loc : Location) :
    framesAt (top :: below) callee loc =
      if top.callee = callee ∧ top.loc = loc then framesAt below callee loc ++ [top]
      else framesAt below callee loc := by
  by_cases here : top.callee = callee ∧ top.loc = loc
  · rw [if_pos here, framesAt, List.filter_cons_of_pos (by simp [here]), List.reverse_cons]
    rfl
  · rw [if_neg here, framesAt, List.filter_cons_of_neg (by simpa using here)]
    rfl

theorem widenRecursiveArgs_eq (setting : Setting) (stack : List Active) (callee : String)
    (args : List Ty) (loc : Location) :
    widenRecursiveArgs setting stack callee args { callee := callee, loc := loc } =
      if (framesAt stack callee loc).all fun f => sameTypes f.args args then args
      else widenedAgainst setting ((framesAt stack callee loc).map Active.args) args := by
  simp only [widenRecursiveArgs, widenedAgainst, argumentsAt, List.map_map]
  rfl

/-- A frame has another signature than those of the same callee further out: their keys differ. -/
theorem signature_new (apart : ((top :: below).map Active.key).Nodup)
    (named : ∀ a ∈ top :: below, a.key = Cache.keyOf a.callee a.args) {f : Active}
    (member : f ∈ framesAt below top.callee loc) : f.args.map Ty.id ≠ top.args.map Ty.id := by
  intro same
  obtain ⟨further, callee, -⟩ := mem_framesAt.1 member
  have key : f.key = top.key := by
    rw [named f (List.mem_cons_of_mem _ further), named top List.mem_cons_self, Cache.keyOf,
      Cache.keyOf, same, callee]
  exact (List.nodup_cons.1 apart).1 (key ▸ List.mem_map_of_mem further)

/-- The frames at one place have signatures each of which was widened against those before. -/
theorem Widened.signatures (widened : Widened setting stack)
    (apart : (stack.map Active.key).Nodup)
    (named : ∀ a ∈ stack, a.key = Cache.keyOf a.callee a.args) (callee : String)
    (loc : Location) :
    framesAt stack callee loc = [] ∨
      ∃ first, Signatures setting first ((framesAt stack callee loc).map Active.args) := by
  induction widened with
  | none => exact Or.inl rfl
  | @top top below args rest ground widened ih =>
      have earlier := ih (List.nodup_cons.1 apart).2 fun a member =>
        named a (List.mem_cons_of_mem _ member)
      rw [framesAt_cons]
      split
      case isFalse => exact earlier
      case isTrue here =>
          obtain ⟨rfl, rfl⟩ := here
          have new : ∀ f ∈ framesAt below top.callee top.loc,
              f.args.map Ty.id ≠ top.args.map Ty.id :=
            fun f member => signature_new apart named member
          right
          rw [List.map_append, List.map_singleton]
          rw [widenRecursiveArgs_eq] at widened
          split at widened
          case isTrue same =>
              -- it can only be that there is no frame at this place yet
              have none : framesAt below top.callee top.loc = [] := by
                refine List.eq_nil_iff_forall_not_mem.2 fun f member => new f member ?_
                rw [widened]
                simpa [sameTypes] using List.all_eq_true.1 same f member
              rw [none, widened]
              exact ⟨args, .first ground⟩
          case isFalse different =>
              rcases earlier with none | ⟨first, before⟩
              · exact absurd (by rw [none]; rfl) different
              · rw [widened]
                refine ⟨first, before.more ground fun member => ?_⟩
                obtain ⟨_, signature, same⟩ := List.mem_map.1 member
                obtain ⟨f, present, rfl⟩ := List.mem_map.1 signature
                exact new f present (widened ▸ same)

/-! ## The stacks of a run -/

theorem Widened.notes (widened : Widened setting old) (notes : Notes old new) :
    Widened setting new := by
  cases notes with
  | none => exact widened
  | top dependsOn =>
      cases widened with
      | top rest ground same => exact .top rest ground same

/-- A call that is entered puts a widened frame on the stack. -/
theorem Widened.enter (widened : Widened setting call.session.stack)
    (ground : ∀ t ∈ call.args, t.ground setting.hierarchy = true)
    (enters : call.Enters setting s) : Widened setting s.stack := by
  obtain ⟨cache, -, rfl⟩ := enter_eq_ok enters.entered
  exact .top widened ground rfl

theorem Widened.nested (widened : Widened setting call.session.stack)
    (ground : ∀ t ∈ call.args, t.ground setting.hierarchy = true)
    (inOrder : call.InOrder setting) (nested : Nested setting call inner) :
    Widened setting inner.session.stack := by
  obtain ⟨-, t, enters, kept⟩ := nested.inOrder inOrder
  exact (widened.enter ground enters).notes kept.stack

/-- If all calls of a run have well-formed arguments, all its frames are widened. -/
theorem InRun.widened
    (ground : ∀ call, InRun setting entries call → ∀ t ∈ call.args,
      t.ground setting.hierarchy = true)
    (inRun : InRun setting entries call) : Widened setting call.session.stack := by
  induction inRun with
  | entry reaches makes =>
      rw [(makes.inOrder reaches.idle).2.stack]
      exact .none
  | nested before nested ih => exact ih.nested (ground _ before) before.inOrder nested

theorem Visits.widened
    (ground : ∀ call, InRun setting entries call → ∀ t ∈ call.args,
      t.ground setting.hierarchy = true)
    (visits : Visits setting entries s) : Widened setting s.stack := by
  cases visits with
  | made inRun => exact inRun.widened ground
  | begun inRun enters begins =>
      exact ((inRun.widened ground).enter (ground _ inRun) enters).notes
        (begins.kept inRun.inOrder enters).stack
  | answered inRun answered =>
      exact (inRun.widened ground).notes ((keeps_of_inOrder _ inRun.inOrder).of_ok answered).stack

/-! ## The bound -/

/-- The frames that share a callee, a call site and a number of arguments: from the outermost to
    the innermost their argument types rise in every position, no two of them have the same
    argument types, and they are at most so many, whatever depth calls may have. -/
theorem recursive_signatures_bounded (setting : Setting) (entries : List EntryCall)
    (built : setting.hierarchy.Declared) (typesGround : setting.hierarchy.TypesGround)
    (ground : ∀ call, InRun setting entries call → ∀ t ∈ call.args,
      t.ground setting.hierarchy = true)
    (visits : Visits setting entries s) (callee : String) (loc : Location) (n : Nat) :
    let frames := (framesAt s.stack callee loc).filter (·.args.length == n)
    frames.Pairwise (fun outer inner =>
        List.Forall₂ (fun a b => isSubtype setting.hierarchy a b = true) outer.args inner.args) ∧
      (frames.map fun frame => frame.args.map Ty.id).Nodup ∧
      frames.length ≤
        1 + n * (setting.options.wideningThreshold + setting.hierarchy.abstractHeight + 1) := by
  intro frames
  have orderly := visits.orderly
  have signed := (visits.widened ground).signatures orderly.apart orderly.named callee loc
  have several : ofArity n ((framesAt s.stack callee loc).map Active.args) =
      frames.map Active.args := List.filter_map
  rcases signed with none | ⟨first, signed⟩
  · have empty : frames = [] := by simp only [frames, none, List.filter_nil]
    rw [empty]
    exact ⟨.nil, .nil, Nat.zero_le _⟩
  · refine ⟨?_, ?_, ?_⟩
    · have rises := List.pairwise_map.1 (signed.rises built.ordered typesGround)
      refine (rises.filter _).imp_of_mem fun {f g} hf hg rise => ?_
      have length : ∀ a ∈ frames, a.args.length = n := fun a member => by
        simpa using (List.mem_filter.1 member).2
      refine List.forall₂_iff_get.2 ⟨(length f hf).trans (length g hg).symm, fun p inF inG => ?_⟩
      have above := rise p inG
      rwa [argumentAt_of_lt inF, argumentAt_of_lt inG] at above
    · have apart := signed.nodup
      rw [List.map_map] at apart
      exact apart.sublist (List.filter_sublist.map _)
    · have counted := signed.length_ofArity_le built.ordered typesGround n
      rwa [several, List.length_map] at counted

/-! ## Two frames at one place -/

/-- `f` calls itself from one place, for an integer with a fraction and for a fraction with a
    vector. There is room for two frames. -/
def growing : Setting where
  hierarchy := numberHierarchy
  table := .ofMethods
    [⟨"f", [⟨"n", .float⟩], [], none,
      some [.ret (some (.call "f" [.literal (.vector .int) none default] default)) default], none,
      default⟩,
     ⟨"f", [⟨"n", .int⟩], [], none,
      some [.ret (some (.call "f" [.literal .float none default] default)) default], none, default⟩]
  globals := globalEnvironment []
  options := { maxCallDepth := 2, wideningThreshold := 1 }

/-- The call from outside. -/
def outerCall : Call := ⟨2, "f", [.int], default, Session.start growing.options⟩

/-- The call that it makes, with a fraction. -/
def innerCall : Call := ⟨1, "f", [.float], default, outerCall.entering growing⟩

theorem evaluated_outerCall : evalAll growing (interpretCall growing) callOfF.args growing.globals
    Body.start outerCall.session = (.ok ([.int], Body.start), outerCall.session) := rfl

theorem inRun_outerCall : InRun growing [callOfF] outerCall :=
  .entry ⟨[], [], [], rfl, rfl⟩ (.own evaluated_outerCall (by decide) (by decide +kernel))

theorem enters_outerCall : outerCall.Enters growing (outerCall.entering growing) :=
  Call.enters_entering (by decide +kernel) (by decide +kernel) (by decide) (by decide +kernel)

theorem enters_innerCall : innerCall.Enters growing (innerCall.entering growing) :=
  Call.enters_entering (by decide +kernel) (by decide +kernel) (by decide) (by decide +kernel)

/-- The first call within the outer call is the inner one. -/
theorem probe_outerCall :
    dispatchPass growing probe outerCall.callee (outerCall.widened growing) outerCall.site
      (outerCall.entering growing) =
        probe "f" [.float] { callee := "f", loc := default } (outerCall.entering growing) := by
  with_unfolding_all rfl

/-- The only call that is made from outside is the outer one. -/
theorem eq_outerCall {entry : EntryCall} (reaches : Reaches growing [callOfF] entry s)
    (makes : EntryMakes growing entry s call) : call = outerCall := by
  obtain ⟨done, rest, outcomes, same, ran⟩ := reaches
  obtain rfl : done = [] := by
    cases done with
    | nil => rfl
    | cons earlier done => simp at same
  cases same
  cases ran
  cases makes with
  | argument follows makes =>
      have quiet := follows probe
      exact absurd makes (Script.not_makes (x := ([.int], Body.start)) (t := outerCall.session)
        (quiet ▸ rfl))
  | own ran _ _ =>
      cases evaluated_outerCall.symm.trans ran
      rfl
  | resolved ran _ several _ _ =>
      cases evaluated_outerCall.symm.trans ran
      exact absurd several (by decide +kernel)

/-- Beside the outer and the inner call the run makes only one that fails at once. -/
theorem calls_growing (inRun : InRun growing [callOfF] call) :
    call = outerCall ∨ call = innerCall ∨
      call.room = 0 ∧ Ty.allGround growing.hierarchy call.args = true := by
  induction inRun with
  | entry reaches makes => exact Or.inl (eq_outerCall reaches makes)
  | nested before nested ih =>
      right
      rcases ih with rfl | rfl | ⟨full, -⟩
      · left
        obtain ⟨script, follows, makes⟩ :=
          nested.makes_of_fails (ne_ok_of_succeeds (by decide +kernel))
        have found := (congrFun (follows probe) _).symm.trans probe_outerCall
        exact Script.eq_of_makes found (ne_ok_of_succeeds (by decide +kernel)) makes
      · right
        obtain ⟨script, follows, makes⟩ :=
          nested.makes_of_fails (ne_ok_of_succeeds (by decide +kernel))
        refine Script.ground_of_makes ?_ makes
        rw [← follows probe]
        decide +kernel
      · exact absurd full nested.room_ne_zero

/-- When the third call meets the limit, there are two frames at one place, and the second one has
    been widened. -/
theorem recursive_signatures_bounded_growing :
    ∃ s, Visits growing [callOfF] s ∧
      ((framesAt s.stack "f" default).filter (·.args.length == 1)).map
        (fun frame => frame.args.map Ty.id) = [["Int"], ["Number"]] ∧
      ((framesAt s.stack "f" default).filter (·.args.length == 1)).Pairwise (fun outer inner =>
        List.Forall₂ (fun a b => isSubtype numberHierarchy a b = true) outer.args inner.args) ∧
      ((framesAt s.stack "f" default).filter (·.args.length == 1)).length ≤
        1 + 1 * (1 + numberHierarchy.abstractHeight + 1) := by
  have ground : ∀ call, InRun growing [callOfF] call → ∀ t ∈ call.args,
      t.ground growing.hierarchy = true := by
    intro call inRun
    rw [← Ty.allGround_iff]
    rcases calls_growing inRun with rfl | rfl | ⟨-, ground⟩
    · decide +kernel
    · decide +kernel
    · exact ground
  have visits : Visits growing [callOfF] (innerCall.entering growing) :=
    .begun (inRun_outerCall.nested (enters_outerCall.nested probe_outerCall)) enters_innerCall
      .first
  have bounded := recursive_signatures_bounded growing [callOfF] numberHierarchy_declared
    (Hierarchy.typesGround_of_decls (by decide +kernel)) ground visits "f" default 1
  exact ⟨_, visits, by decide +kernel, bounded.1, bounded.2.2⟩

end Multimethod.Inference
