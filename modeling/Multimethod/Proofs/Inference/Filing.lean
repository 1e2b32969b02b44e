import Multimethod.Proofs.Inference.Entries
import Multimethod.Proofs.Inference.KindsOfPrograms
import Multimethod.Proofs.Inference.Rejecting
import Multimethod.Proofs.Ty.Ground

/-!
# What the sessions of a run store

Every session of a run stores settled trees under the keys of their calls. If keys tell calls apart, as
those of well-formed calls do, a call that is not pending is answered with its own frame, analysed
or rebuilt: it is errored exactly if dispatch rejects the call.
-/

namespace Multimethod.Inference

open Dispatch Multimethod.Lattice

/-- Whether a key tells a call with types of a kind from all others. -/
def KeysIdentify (kind : Ty → Prop) : Prop :=
  ∀ callee callee' args args', (∀ a ∈ args, kind a) → (∀ a ∈ args', kind a) →
    Cache.keyOf callee args = Cache.keyOf callee' args' → callee = callee' ∧ args = args'

theorem keysIdentify_ground (h : Hierarchy) : KeysIdentify fun t => t.ground h = true := by
  intro callee callee' args args' ground ground' same
  have readable : ∀ ts : List Ty, (∀ t ∈ ts, t.ground h = true) →
      Ty.allReadable h.isAbstract ts = true := fun ts ground =>
    Ty.allReadable_of_allGround (Ty.allGround_iff.2 ground)
  have closed : ∀ ts : List Ty, (∀ t ∈ ts, t.ground h = true) → '(' ∉ Ty.listIds ts :=
    fun ts ground => Ty.open_not_mem_listIds fun t member =>
      Ty.spelled_of_readable t (Ty.readable_of_ground t (ground t member))
  rw [← String.toList_inj, toList_keyOf, toList_keyOf] at same
  obtain ⟨callees, lists⟩ := append_open_inj_of_last (by simpa using closed args ground)
    (by simpa using closed args' ground') same
  exact ⟨String.toList_inj.1 callees, Ty.eq_of_listIds_eq (readable args ground)
    (readable args' ground') (List.append_cancel_right lists)⟩

variable {setting : Setting} {worded : Prop} {kind : Ty → Prop} {s t : Session} {key : String}
  {frame source : Frame} {args choice : List Ty} {callee : String} {loc : Location}
  {site : CallSite} {call inner : Call} {entry : EntryCall} {entries : List EntryCall}

/-! ## Answered calls -/

theorem errored_of_rejection {alone : Frame}
    (rejected : rejection setting callee site args = some alone) :
    alone.status = .errored ∧ alone.children = [] := by
  unfold rejection at rejected
  split at rejected <;> cases rejected <;> exact ⟨rfl, rfl⟩

/-- What dispatch rejects at one place it rejects at another one. -/
theorem rejection_moved (site : CallSite) (args : List Ty) (loc : Location) :
    rejection setting callee { site with loc := loc } args =
      (rejection setting callee site args).map fun alone =>
        { alone with
          site := { site with loc := loc }
          errors := alone.errors.map fun d => { d with loc := loc } } := by
  unfold rejection
  cases lookup setting.hierarchy setting.table callee args <;> rfl

/-- Whether a frame is that of a call, and dispatch made of the call what the frame tells. -/
structure Judged (setting : Setting) (site : CallSite) (args : List Ty) (frame : Frame) : Prop where
  site : frame.site = site
  args : frame.args = args
  decided : Decided setting frame

/-- A frame that is rebuilt for a call with the same key is that of the call. -/
theorem Filed.judged (filed : Filed setting worded key source) (identify : KeysIdentify kind)
    (ofSource : ∀ a ∈ source.args, kind a) (ofArgs : ∀ a ∈ args, kind a)
    (same : key = Cache.keyOf site.callee args) (plain : site.field = none) :
    Judged setting site args (frameFromCache source site args) := by
  obtain ⟨callees, rfl⟩ := identify _ _ _ _ ofSource ofArgs (filed.key.symm.trans same)
  have place : { source.site with loc := site.loc } = site := by
    cases site
    cases hs : source.site
    have := filed.plain
    simp_all
  have moved := @rejection_moved setting source.site.callee source.site source.args site.loc
  rw [place] at moved
  refine ⟨rfl, rfl, ?_⟩
  cases answer : rejection setting source.site.callee source.site source.args with
  | none =>
      rw [answer, callees, Option.map_none] at moved
      exact (Decided.iff_resolved moved).2 ((Decided.iff_resolved answer).1 filed.decided)
  | some alone =>
      obtain ⟨errored, childless⟩ := errored_of_rejection answer
      have kept := (Decided.iff_rejected answer).1 filed.decided
      subst kept
      have moves : (source.origin != .interpreted || source.status == .errored) = true := by
        simp [show source.status = .errored from errored]
      rw [answer, callees, Option.map_some] at moved
      refine (Decided.iff_rejected moved).2 ?_
      simp only [frameFromCache, moves, if_true, show source.children = [] from childless,
        Frame.pruneAll]

/-- The frame of a pass is that of the call. -/
theorem SettledPass.judged (pass : SettledPass setting worded call.callee (call.widened setting)
    call.site frame) : Judged setting call.site (call.widened setting) frame :=
  ⟨pass.placed.1, pass.placed.2, .of_pass pass rfl⟩

section Calls

variable (closed : Closed setting kind) (reads : worded → KeysRender kind)
include closed reads

/-- A call that is not pending is answered with its own frame. -/
theorem Call.judged (identify : KeysIdentify kind) (call : Call) (of : call.Of kind)
    (filed : call.session.Filed setting worded)
    (free : ∀ p, call.session.cache.find? (call.key setting) ≠ some (.pending p)) :
    Ends (fun frame _ => Judged setting call.site (call.widened setting) frame) (fun _ _ => True)
      (call.answer setting) := by
  have ofWidened := of.widened closed
  refine Call.ends_answer ?finished ?pending ?shelved ?full ?analysed
  case finished =>
    intro result found
    have ofResult : result.frame.Of kind := of.session.found found
    exact (filed.found found).judged identify ofResult.args ofWidened rfl rfl
  case pending => exact fun p found => absurd found (free p)
  case shelved =>
    intro memo _ shelved
    have held := Call.mem_of_memo? shelved
    have ofMemo := of.session.provisional _ held
    exact (filed.provisional _ _ held).judged identify ofMemo.args ofWidened rfl rfl
  case full => exact fun _ _ => trivial
  case analysed =>
    intro _ _
    have analysed := ends_analysis_filed closed of
      (fun inner _ ofInner before => Call.settles closed reads inner ofInner before)
      ⟨of.session, filed⟩
    exact analysed.imp (fun _ _ after => after.1.judged) fun _ _ _ => trivial

end Calls

/-! ## The sessions of a run -/

theorem Session.of_true (s : Session) : s.Of fun _ => True := by
  refine ⟨fun entry member => ?_, fun entry member => ?_, by simp⟩
  · cases entry.2 <;> simp [CacheEntry.Of, Frame.Of]
  · simp [Frame.Of]

section Filing

variable (distinct : setting.globals.bindings.Distinct)
include distinct

theorem ends_answer_filed (call : Call) (filed : call.session.Filed setting False) :
    Ends (fun _ t => t.Filed setting False) (fun _ t => t.Filed setting False)
      (call.answer setting) :=
  (Call.settles (closed_true distinct) False.elim call ⟨by simp, call.session.of_true⟩ filed).imp
    (fun _ _ after => after.2.filed) fun _ _ after => after.filed

theorem Script.Makes.filed {α : Type} {script : Script α} {room : Nat}
    (makes : script.Makes setting room s call) (filed : s.Filed setting False) :
    call.session.Filed setting False :=
  (makes.known (fun t => t.Filed setting False) filed fun callee args loc t before =>
    ends_answer_filed distinct ⟨room, callee, args, loc, t⟩ before).2

theorem Reaches.filed (reaches : Reaches setting entries entry s) : s.Filed setting False := by
  obtain ⟨done, rest, outcomes, rfl, ran⟩ := reaches
  exact ((ends_mapM_settled (closed_true distinct) False.elim (fun _ _ _ _ => trivial)
    ⟨of_start setting, filed_start setting⟩).of_ok ran).2.filed

theorem EntryMakes.filed (makes : EntryMakes setting entry s call)
    (filed : s.Filed setting False) : call.session.Filed setting False := by
  have evaluated := ends_built_settled (closed_true distinct) False.elim
    (built_evalAll entry.args setting.globals) (Body.settled_start False)
    (fun caller answering => sound_entryArgs (closed_true distinct) answering
      (fun _ _ => trivial) s.of_true) ⟨s.of_true, filed⟩
  cases makes with
  | argument _ makes => exact makes.filed distinct filed
  | own ran _ _ => exact (evaluated.of_ok ran).2.filed
  | resolved ran _ _ _ makes => exact makes.filed distinct (evaluated.of_ok ran).2.filed

/-- The passes over a call begin in sessions that store settled trees. -/
theorem Begins.filed {passes : Nat} (enters : call.Enters setting s)
    (begins : Begins setting (call.pass setting) (call.key setting) s passes t)
    (filed : call.session.Filed setting False) : t.Filed setting False := by
  have entered := ends_enter_filed call.callee (call.widened setting) call.site (call.key setting)
    filed
  have passes : ∀ u, u.Filed setting False → Ends (fun _ t => t.Filed setting False)
      (fun _ t => t.Filed setting False) (call.pass setting u) := by
    intro u before
    have of : call.Of fun _ => True := ⟨by simp, call.session.of_true⟩
    have passed := ends_pass_settled (closed_true distinct) of (fun inner _ ofInner before =>
        Call.settles (closed_true distinct) False.elim inner ofInner before) ⟨u.of_true, before⟩
    exact passed.imp (fun _ _ after => after.2.filed) fun _ _ after => after.filed
  exact begins.known (entered.of_ok enters.entered).1 passes fun u p next history before _ =>
    (before.setPlaceholder _).fewer (fun _ _ member => member) fun _ member => member

theorem InRun.filed (inRun : InRun setting entries call) : call.session.Filed setting False := by
  induction inRun with
  | entry reaches makes => exact makes.filed distinct (reaches.filed distinct)
  | nested _ nested ih =>
      obtain ⟨enters, begins, -, makes⟩ := nested
      exact makes.filed distinct (begins.filed distinct enters ih)

/-- The sessions of a run store settled trees under their keys. -/
theorem Visits.filed (visits : Visits setting entries s) : s.Filed setting False := by
  cases visits with
  | made inRun => exact inRun.filed distinct
  | begun inRun enters begins => exact begins.filed distinct enters (inRun.filed distinct)
  | answered inRun answered => exact (ends_answer_filed distinct _ (inRun.filed distinct)).of_ok answered

end Filing

/-- The sessions of a run are of the kind that its entry calls are of. -/
theorem Visits.of (closed : Closed setting kind) (ofEntries : EntriesOf kind entries)
    (visits : Visits setting entries s) : s.Of kind := by
  cases visits with
  | made inRun => exact (inRun.of closed ofEntries).session
  | answered inRun answered => exact (((inRun.of closed ofEntries).answer closed).of_ok answered).2
  | @begun call u _ _ inRun enters begins =>
      have of := inRun.of closed ofEntries
      have widened := of.widened closed
      have entered := (ends_enter_of call.callee call.site (call.key setting) of.session widened
        closed.bottom).of_ok enters.entered
      exact of_begins closed (fun t before => ends_dispatchPass (answering_interpret closed _) closed
        call.callee widened call.site before) begins entered

end Multimethod.Inference
