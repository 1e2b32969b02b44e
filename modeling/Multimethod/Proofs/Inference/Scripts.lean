import Mathlib.Tactic.Choose
import Multimethod.Proofs.Inference.Making

/-!
# Scripts

A body touches the session only by its calls, and who answers them is left open. Its analysis is
therefore a script: a tree of calls, each of which goes on from the frame that answers it. What
every call keeps is kept by a whole script, and if all calls are answered by settled trees, then
the trees that a body collects are settled.
-/

namespace Multimethod.Inference

open Dispatch Multimethod.Lattice

/-- What a computation comes to: `good` behind its result, and `bad` behind the fault that stops
    it. -/
def Ends {α : Type} (good : α → Session → Prop) (bad : Fault → Session → Prop) :
    Except Fault α × Session → Prop
  | (.ok x, t) => good x t
  | (.error fault, t) => bad fault t

section Outcomes

variable {α β : Type} {good : α → Session → Prop} {bad : Fault → Session → Prop} {s t : Session}

theorem bind_run (m : Infer α) (f : α → Infer β) (s : Session) :
    (m >>= f) s =
      match m s with
      | (.ok x, t) => f x t
      | (.error fault, t) => (.error fault, t) := by
  change ExceptT.bindCont f (m s).1 (m s).2 = _
  cases m s with
  | mk result t => cases result <;> rfl

theorem get_bind (f : Session → Infer α) (s : Session) : (get >>= f) s = f s s :=
  rfl

theorem Ends.bind {m : Infer α} {f : α → Infer β} {good' : β → Session → Prop}
    (first : Ends good bad (m s)) (next : ∀ x t, m s = (.ok x, t) → good x t →
      Ends good' bad (f x t)) : Ends good' bad ((m >>= f) s) := by
  rw [bind_run]
  match ran : m s, first with
  | (.ok x, t), first => exact next x t ran first
  | (.error fault, t), first => exact first

theorem Ends.imp {good' : α → Session → Prop} {bad' : Fault → Session → Prop}
    {outcome : Except Fault α × Session} (ends : Ends good bad outcome)
    (ok : ∀ x t, good x t → good' x t) (error : ∀ fault t, bad fault t → bad' fault t) :
    Ends good' bad' outcome := by
  match outcome with
  | (.ok x, t) => exact ok x t ends
  | (.error fault, t) => exact error fault t ends

theorem Ends.and {good' : α → Session → Prop} {bad' : Fault → Session → Prop}
    {outcome : Except Fault α × Session} (first : Ends good bad outcome)
    (second : Ends good' bad' outcome) :
    Ends (fun x t => good x t ∧ good' x t) (fun fault t => bad fault t ∧ bad' fault t) outcome := by
  match outcome with
  | (.ok _, _) => exact And.intro first second
  | (.error _, _) => exact And.intro first second

theorem Ends.of_ok {outcome : Except Fault α × Session} {x : α} (ends : Ends good bad outcome)
    (done : outcome = (.ok x, t)) : good x t := by
  rw [done] at ends
  exact ends

/-- Where nothing is asked of faults, results alone matter. -/
theorem ends_of_forall_ok {outcome : Except Fault α × Session}
    (ok : ∀ x t, outcome = (.ok x, t) → good x t) : Ends good (fun _ _ => True) outcome := by
  match outcome with
  | (.ok x, t) => exact ok x t rfl
  | (.error _, _) => trivial

/-- Nothing is asked of what a computation comes to. -/
theorem ends_trivially (outcome : Except Fault α × Session) :
    Ends (fun _ _ => True) (fun _ _ => True) outcome :=
  ends_of_forall_ok fun _ _ _ => trivial

end Outcomes

/-! ## Scripts -/

/-- A computation by the calls it makes. -/
inductive Script (α : Type) where
  | done (x : α)
  /-- It stops at a jump that has no loop to leave. -/
  | stray (jump : Jump) (loc : Location)
  /-- It makes a call, and goes on from its frame. -/
  | call (callee : String) (args : List Ty) (loc : Location) (next : Frame → Script α)

namespace Script

variable {α β : Type}

/-- Runs a script, with somebody to answer its calls. -/
def run (caller : Caller) : Script α → Infer α
  | done x => pure x
  | stray jump loc => throw (.malformed (.strayJump jump.keyword) (some loc))
  | call callee args loc next => do
      let frame ← caller callee args { callee := callee, loc := loc }
      (next frame).run caller

/-- One script after another. -/
def bind (script : Script α) (next : α → Script β) : Script β :=
  match script with
  | done x => next x
  | stray jump loc => stray jump loc
  | call callee args loc rest => call callee args loc fun frame => (rest frame).bind next

theorem run_bind (caller : Caller) (script : Script α) (next : α → Script β) :
    (script.bind next).run caller = script.run caller >>= fun x => (next x).run caller := by
  induction script with
  | done x => rw [bind, run, pure_bind]
  | stray jump loc => rfl
  | call callee args loc rest ih =>
      rw [bind, run, run, bind_assoc]
      congr
      funext frame
      exact ih frame

/-- Whether a computation follows a script, whoever answers its calls. -/
def Describes (script : Script α) (m : Caller → Infer α) : Prop :=
  ∀ caller, m caller = script.run caller

theorem Describes.bind {script : Script α} {next : α → Script β} {m : Caller → Infer α}
    {f : α → Caller → Infer β} (first : script.Describes m)
    (rest : ∀ x, (next x).Describes (f x)) :
    (script.bind next).Describes fun caller => m caller >>= fun x => f x caller := by
  intro caller
  change m caller >>= (fun x => f x caller) = _
  rw [run_bind, first caller]
  congr
  funext x
  exact rest x caller

theorem describes_pure (x : α) : (done x).Describes fun _ => pure x :=
  fun _ => rfl

theorem ends {caller : Caller} {bad : Fault → Session → Prop} {known : Session → Prop}
    (calls : ∀ callee args loc s, known s →
      Ends (fun _ => known) bad (caller callee args { callee := callee, loc := loc } s))
    (stray : ∀ (jump : Jump) loc s, known s →
      bad (.malformed (.strayJump jump.keyword) (some loc)) s) (script : Script α) (s : Session)
    (before : known s) : Ends (fun _ => known) bad (script.run caller s) := by
  induction script generalizing s with
  | done x => exact before
  | stray jump loc => exact stray jump loc s before
  | call callee args loc next ih =>
      exact Ends.bind (calls callee args loc s before) fun frame t _ after => ih frame t after

/-- Whether a script comes to something good if its calls are answered well. -/
def Yields (answer : Frame → Prop) (good : α → Prop) : Script α → Prop
  | done x => good x
  | stray _ _ => True
  | call _ _ _ next => ∀ frame, answer frame → (next frame).Yields answer good

theorem Yields.bind {answer : Frame → Prop} {good : α → Prop} {good' : β → Prop}
    {script : Script α} {next : α → Script β} (first : script.Yields answer good)
    (rest : ∀ x, good x → (next x).Yields answer good') :
    (script.bind next).Yields answer good' := by
  induction script with
  | done x => exact rest x first
  | stray jump loc => trivial
  | call callee args loc further ih => exact fun frame answered => ih frame (first frame answered)

end Script

/-- Whether a body has settled trees only, and no diagnostic of its own that comes of dispatch. -/
structure Body.Settled (worded : Prop) (body : Body) : Prop where
  children : ∀ c ∈ body.children, c.AllSettled worded
  errors : ∀ d ∈ body.errors, ¬ d.IsDispatch

theorem Body.settled_start (worded : Prop) : Body.start.Settled worded :=
  ⟨by simp [Body.start], by simp [Body.start]⟩

/-- Every computation that a body is built from follows a script, by which a settled body stays
    settled. -/
theorem Built.exists_settling {α : Type} {m : Caller → Walk α} (built : Built m) (b : Body) :
    ∃ script : Script (α × Body), script.Describes (fun caller => m caller b) ∧
      ∀ worded, b.Settled worded →
        script.Yields (Frame.AllSettled worded) fun p => p.2.Settled worded := by
  induction built generalizing b with
  | @step _ f keeps =>
      refine ⟨.done (f b), fun _ => rfl, fun worded settled => ?_⟩
      obtain ⟨children, errors⟩ := keeps b
      exact ⟨by rw [children]; exact settled.children, by rw [errors]; exact settled.errors⟩
  | @report errors none =>
      refine ⟨.done ((), { b with errors := b.errors ++ errors }), fun _ => rfl, ?_⟩
      exact fun worded settled =>
        ⟨settled.children, List.forall_mem_append.2 ⟨settled.errors, none⟩⟩
  | stray jump loc => exact ⟨.stray jump loc, fun _ => rfl, fun _ _ => trivial⟩
  | bind _ _ first next =>
      obtain ⟨script, follows, yields⟩ := first b
      choose rest goesOn yieldsOn using fun p : _ × Body => next p.1 p.2
      exact ⟨script.bind rest, follows.bind goesOn,
        fun worded settled => (yields worded settled).bind fun p => yieldsOn p worded⟩
  | @attach frames made =>
      refine ⟨.done ((), { b with children := b.children ++ frames }), fun _ => rfl, ?_⟩
      refine fun worded settled =>
        ⟨List.forall_mem_append.2 ⟨settled.children, fun f member => ?_⟩, settled.errors⟩
      exact ((made f member).settled.imp fun _ => trivial).alone (made f member).children
  | @call _ callee args loc _ _ next =>
      choose rest goesOn yieldsOn using
        fun frame => next frame { b with children := b.children ++ [frame] }
      refine ⟨.call callee args loc rest, fun caller => ?_, fun worded settled frame answered => ?_⟩
      · change ((do return (← caller callee args { callee := callee, loc := loc }, b)) >>=
          fun p : Frame × Body => _ : Infer _) = _
        rw [Script.run, bind_assoc]
        congr
        funext frame
        exact goesOn frame caller
      · refine yieldsOn frame worded ⟨List.forall_mem_append.2 ⟨settled.children, ?_⟩,
          settled.errors⟩
        simpa using answered
  | @onScratch pass _ scratch =>
      obtain ⟨script, follows, yields⟩ := scratch Body.start
      refine ⟨script.bind fun p => .done (p.1, b), fun caller => ?_, fun worded settled => ?_⟩
      · change ((do return (← pass caller Body.start, b)) >>=
          fun p : (Flow × Body) × Body => do return (p.1.1, p.2) : Infer (Flow × Body)) = _
        rw [Script.run_bind, bind_assoc, ← follows caller]
        rfl
      · exact (yields worded (Body.settled_start worded)).bind fun _ _ => settled

theorem Built.exists_script {α : Type} {m : Caller → Walk α} (built : Built m) (b : Body) :
    ∃ script : Script (α × Body), script.Describes fun caller => m caller b :=
  (built.exists_settling b).imp fun _ both => both.1

/-- What comes of a pass over a dispatch case: a settled tree that stands where the call does. It is
    one frame if dispatch rejects the call. Otherwise its own diagnostics do not come of dispatch. -/
structure SettledPass (setting : Setting) (worded : Prop) (callee : String) (args : List Ty)
    (site : CallSite) (frame : Frame) : Prop where
  settled : frame.AllSettled worded
  placed : frame.site = site ∧ frame.args = args
  rejected : ∀ alone, rejection setting callee site args = some alone → frame = alone
  accepted : rejection setting callee site args = none →
    frame.status = .resolved ∧ ∀ d ∈ frame.errors, ¬ d.IsDispatch

section Passes

variable {setting : Setting} {callee : String} {args : List Ty} {site : CallSite} {frame : Frame}

theorem dispatchPass_of_rejection {caller : Caller}
    (rejected : rejection setting callee site args = some frame) :
    dispatchPass setting caller callee args site = pure frame := by
  unfold rejection at rejected
  unfold dispatchPass
  split at rejected <;> cases rejected <;> rw [‹lookup _ _ _ _ = _›]

theorem placed_of_rejection (rejected : rejection setting callee site args = some frame) :
    frame.site = site ∧ frame.args = args := by
  unfold rejection at rejected
  split at rejected <;> cases rejected <;> exact ⟨rfl, rfl⟩

/-- A pass over a dispatch case follows a script too, and comes to a settled tree by it. -/
theorem exists_settling_dispatchPass (setting : Setting) (callee : String) (args : List Ty)
    (site : CallSite) : ∃ script : Script Frame,
      script.Describes (fun caller => dispatchPass setting caller callee args site) ∧
        ∀ worded, script.Yields (Frame.AllSettled worded)
          (SettledPass setting worded callee args site) := by
  cases answer : rejection setting callee site args with
  | some frame =>
      refine ⟨.done frame, fun _ => dispatchPass_of_rejection answer, fun worded => ?_⟩
      have made := local_of_rejection answer
      refine ⟨(made.settled.imp fun _ => trivial).alone made.children, placed_of_rejection answer,
        ?_, fun accepted => ?_⟩
      · exact fun alone rejected => Option.some.inj (answer.symm.trans rejected)
      · rw [answer] at accepted
        cases accepted
  | none =>
      obtain ⟨found, matched⟩ := matched_of_rejection answer
      unfold dispatchPass
      rw [matched]
      have built : Built fun call => invokeAll setting call site args found .bottom :=
        built_invokeAll site args found .bottom
      obtain ⟨script, follows, yields⟩ := built.exists_settling Body.start
      refine ⟨_, follows.bind fun p => Script.describes_pure _, fun worded => ?_⟩
      refine (yields worded (Body.settled_start worded)).bind fun p settled => ?_
      refine ⟨Frame.allSettled_iff.2 ⟨?_, settled.children⟩, ⟨rfl, rfl⟩, fun alone rejected => ?_,
        fun _ => ⟨rfl, settled.errors⟩⟩
      · refine Frame.settled_of_noDispatch (.inl rfl) ?_ settled.errors
        dsimp only
        split <;> simp
      · rw [answer] at rejected
        cases rejected

end Passes

theorem exists_script_dispatchPass (setting : Setting) (callee : String) (args : List Ty)
    (site : CallSite) : ∃ script : Script Frame,
      script.Describes fun caller => dispatchPass setting caller callee args site :=
  (exists_settling_dispatchPass setting callee args site).imp fun _ both => both.1

end Multimethod.Inference
