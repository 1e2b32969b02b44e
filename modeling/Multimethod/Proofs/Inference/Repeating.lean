import Multimethod.Proofs.Inference.Lasting

/-!
# Repeating a pass

What a call was answered is known behind it, until a placeholder moves of which the answer has made
use. If what the calls of a pass over a loop were answered is still known behind the pass, the same
pass is made again without analysing anything, and comes to the same.
-/

namespace Multimethod

open Inference

/-- What the body of a caller reads off the frame of a call: what the call returns, and whether
    dispatch rejected it. -/
def Frame.verdict (frame : Frame) : Ty × Bool :=
  (frame.ret, frame.status == .errored)

theorem Frame.alike_blind_iff {f g : Frame} : Frame.Alike .blind f g ↔ f.verdict = g.verdict := by
  rw [verdict, verdict, Prod.mk.injEq]
  exact ⟨fun alike => ⟨alike.ret, alike.errored⟩, fun ⟨ret, errored⟩ =>
    ⟨ret, errored, fun seen => seen.elim, fun seen => seen.elim⟩⟩

namespace Inference

/-- What a session knows of the calls of a key before one is analysed. -/
def Session.recall? (s : Session) (key : String) : Option (Ty × Bool) :=
  match s.cache.find? key with
  | some (.finished result) => some result.frame.verdict
  | some (.pending p) => some (p.ret, false)
  | none => ((s.provisional.find? key).filter (isCurrent s)).map fun memo => memo.frame.verdict

variable {setting : Setting} {s t u : Session} {key : String} {p : Placeholder}
  {memo : Provisional} {call inner : Call} {frame : Frame} {α : Type} {x : α}
  {old new : List Active} {verdict : Ty × Bool}

/-! ## What is known behind a call -/

theorem recall?_of_finished {result : Inferred}
    (found : s.cache.find? key = some (.finished result)) :
    s.recall? key = some result.frame.verdict := by
  rw [Session.recall?, found]

theorem recall?_of_pending (found : s.cache.find? key = some (.pending p)) :
    s.recall? key = some (p.ret, false) := by
  rw [Session.recall?, found]

theorem recall?_of_unknown (unknown : s.cache.find? key = none) :
    s.recall? key =
      ((s.provisional.find? key).filter (isCurrent s)).map fun memo => memo.frame.verdict := by
  rw [Session.recall?, unknown]

/-- The calls on the stack are pending. -/
theorem Balanced.pending {cache : Cache} {stack : List Active} (balanced : Balanced cache stack)
    {a : Active} (member : a ∈ stack) :
    ∃ p, cache.find? a.key = some (.pending p) ∧ p.serial = a.serial := by
  obtain ⟨newer, older, rfl⟩ := List.append_of_mem member
  obtain ⟨p, held, serial, -⟩ := balanced.owned a older (List.suffix_append _ _)
  exact ⟨p, held, serial⟩

theorem mem_of_headOf {stack : List Active} {o : Option Nat} {depth : Nat} {head : Active}
    (found : headOf stack o = some (depth, head)) : head ∈ stack := by
  cases o with
  | none => cases found
  | some d =>
      obtain ⟨a, here, same⟩ := Option.map_eq_some_iff.1 found
      cases same
      exact List.mem_reverse.1 (List.mem_of_getElem? here)

/-- Noting a dependency leaves the calls on the stack the same. -/
theorem exists_mem_dependOn {stack : List Active} {a : Active} (member : a ∈ stack) (depth : Nat) :
    ∃ b ∈ dependOn stack depth, b.key = a.key ∧ b.serial = a.serial := by
  rcases dependOn_cases stack depth with same | ⟨top, below, rfl, -, noted⟩
  · exact ⟨a, same.symm ▸ member, rfl, rfl⟩
  · rw [noted]
    rcases List.mem_cons.1 member with rfl | further
    · exact ⟨_, List.mem_cons_self, rfl, rfl⟩
    · exact ⟨a, List.mem_cons_of_mem _ further, rfl, rfl⟩

/-- A result that was just stored is known. -/
theorem recall?_of_store {o : Option Nat} {converged : Bool}
    (orderly : Orderly setting.options t.cache t.stack)
    (pending : s.cache.find? key = some (.pending p))
    (stored : store key o frame converged s = (.ok (), t)) :
    t.recall? key = some frame.verdict := by
  obtain ⟨_, _, got, stored⟩ := bind_eq_ok stored
  cases got
  cases found : headOf s.stack o with
  | none =>
      rw [found] at stored
      obtain ⟨cache, _, sealing, stored⟩ := bind_eq_ok stored
      obtain ⟨finished, rfl⟩ := liftChecked_eq_ok sealing
      cases stored
      exact @recall?_of_finished _ _ ⟨frame, converged⟩
        ((find?_finish finished).trans (if_pos rfl))
  | some outer =>
      rw [found] at stored
      cases stored
      obtain ⟨depth, head⟩ := outer
      -- the call that the result depends on is still on the stack
      obtain ⟨a, member, keys, serials⟩ := exists_mem_dependOn (mem_of_headOf found) depth
      obtain ⟨q, held, serial⟩ := orderly.pending member
      rw [recall?_of_unknown (find?_discard_self pending)]
      dsimp only
      rw [Assoc.find?_insert, if_pos rfl, Option.filter_some, if_pos]
      · rfl
      · rw [isCurrent, beq_self_eq_true, Bool.true_and, Option.any_eq_true]
        rw [keys] at held
        exact ⟨q, pending?_of_find? held, by simp [serial, serials]⟩

/-- What a call was answered is known behind it. -/
theorem recall?_of_answer (inOrder : call.InOrder setting)
    (answered : call.answer setting = (.ok frame, t)) :
    t.recall? (call.key setting) = some frame.verdict := by
  have ends : Ends (fun frame t => Orderly setting.options t.cache t.stack →
      t.recall? (call.key setting) = some frame.verdict) (fun _ _ => True)
      (call.answer setting) := by
    refine Call.ends_answer ?finished ?pending ?shelved ?full ?analysed
    case finished => exact fun result found _ => recall?_of_finished found
    case pending =>
      intro p _ _
      exact recall?_of_pending (p := { p with reentered := true })
        ((find?_setPlaceholder _ _ _ _).trans (if_pos rfl))
    case shelved =>
      intro memo unknown shelved _
      have same := recall?_of_unknown unknown
      unfold Call.memo? at shelved
      rw [shelved] at same
      exact same
    case full => exact fun _ _ => trivial
    case analysed =>
      intro new room
      refine ends_of_forall_ok fun frame t done orderly => ?_
      obtain ⟨u, v, converged, entered, settled, stored⟩ := analysis_eq_ok done
      have opened := (ends_enters inOrder new room).of_ok entered
      have inside := opened.ends_fixpoint inOrder room fun inner _ => keeps_of_inOrder inner
      obtain ⟨p, pending⟩ := (inside.of_ok settled).pending
      exact recall?_of_store (s := { v with stack := v.stack.tail }) orderly pending stored
  exact ends.of_ok answered ((keeps_of_inOrder call inOrder).of_ok answered).orderly

/-- What is known of a call stays known if the call has an entry, and otherwise while no placeholder
    moves. -/
theorem Lasts.recall? (lasts : Lasts s t) (known : s.recall? key = some verdict)
    (lasting : (s.cache.find? key).isSome = true ∨ t.generation = s.generation) :
    t.recall? key = some verdict := by
  cases found : s.cache.find? key with
  | some entry =>
      cases entry with
      | finished result =>
          rw [recall?_of_finished found] at known
          rw [recall?_of_finished (lasts.finished key result found), known]
      | pending p =>
          rw [recall?_of_pending found] at known
          obtain ⟨met, held⟩ := lasts.pending key p found
          rw [recall?_of_pending held, ← known]
  | none =>
      rw [recall?_of_unknown found] at known
      obtain ⟨memo, shelved, same⟩ := Option.map_eq_some_iff.1 known
      have still := lasting.resolve_left (by simp [found])
      obtain ⟨unknown, held⟩ := lasts.shelved still key memo found shelved
      rw [recall?_of_unknown unknown, held, ← same]
      rfl

/-! ## Answers from what is known -/

/-- Whether sessions know the same and have the same calls on their stacks. -/
structure Recollects (s t : Session) : Prop where
  known : ∀ key, t.recall? key = s.recall? key
  stack : Notes s.stack t.stack

theorem Recollects.refl (s : Session) : Recollects s s :=
  ⟨fun _ => rfl, .refl s.stack⟩

theorem Recollects.trans (first : Recollects s t) (second : Recollects t u) : Recollects s u :=
  ⟨fun key => (second.known key).trans (first.known key), first.stack.trans second.stack⟩

/-- What the frames on a stack depend on does not matter to how arguments are widened. -/
theorem Notes.widened (notes : Notes old new) (callee : String) (args : List Ty) (site : CallSite) :
    widenRecursiveArgs setting new callee args site =
      widenRecursiveArgs setting old callee args site := by
  cases notes with
  | none => rfl
  | @top top below dependsOn =>
      unfold widenRecursiveArgs
      cases here : top.callee == callee && top.loc == site.loc <;> simp [here]

theorem Notes.key_eq (notes : Notes s.stack t.stack) (room : Nat) (callee : String) (args : List Ty)
    (loc : Location) :
    Call.key setting ⟨room, callee, args, loc, t⟩ =
      Call.key setting ⟨room, callee, args, loc, s⟩ := by
  unfold Call.key Call.widened
  dsimp only
  rw [notes.widened]
  rfl

theorem isCurrent_reentered (found : s.cache.find? key = some (.pending p)) (memo : Provisional) :
    isCurrent { s with cache := s.cache.setPlaceholder key { p with reentered := true } } memo =
      isCurrent s memo := by
  unfold isCurrent Cache.pending?
  dsimp only
  rw [find?_setPlaceholder]
  by_cases same : key = memo.headKey
  · rw [if_pos same, ← same, found]
    rfl
  · rw [if_neg same]

/-- Meeting a placeholder changes nothing of what is known. -/
theorem recollects_reentered (found : s.cache.find? key = some (.pending p)) (depth : Nat) :
    Recollects s
      { s with
        cache := s.cache.setPlaceholder key { p with reentered := true }
        stack := dependOn s.stack depth } := by
  refine ⟨fun other => ?_, notes_dependOn _ _⟩
  have current : isCurrent { s with
      cache := s.cache.setPlaceholder key { p with reentered := true } } = isCurrent s :=
    funext (isCurrent_reentered found)
  by_cases same : key = other
  · subst same
    rw [recall?_of_pending found]
    exact recall?_of_pending (p := { p with reentered := true })
      ((find?_setPlaceholder _ _ _ _).trans (if_pos rfl))
  · unfold Session.recall?
    dsimp only
    rw [find?_setPlaceholder, if_neg same]
    cases s.cache.find? other with
    | some entry => cases entry <;> rfl
    | none => exact congrArg (fun current => Option.map _ (Option.filter current _)) current

/-- A call that is known is answered with what is known of it. -/
theorem exists_answer_of_recall? (known : call.session.recall? (call.key setting) = some verdict) :
    ∃ frame t, call.answer setting = (.ok frame, t) ∧ frame.verdict = verdict ∧
      Recollects call.session t := by
  rw [Call.answer_eq]
  cases found : call.session.cache.find? (call.key setting) with
  | some entry =>
      cases entry with
      | finished result =>
          rw [recall?_of_finished found] at known
          exact ⟨_, _, rfl, Option.some.inj known, .refl _⟩
      | pending p =>
          rw [recall?_of_pending found] at known
          exact ⟨_, _, rfl, Option.some.inj known, recollects_reentered found _⟩
  | none =>
      rw [recall?_of_unknown found] at known
      obtain ⟨memo, shelved, same⟩ := Option.map_eq_some_iff.1 known
      have shelved : call.memo? setting = some memo := shelved
      rw [shelved]
      exact ⟨_, _, rfl, same, fun _ => rfl, notes_dependOn _ _⟩

/-! ## Scripts -/

/-- Answers as the interpreter does, but fails where an answer is not good. -/
noncomputable def strict (setting : Setting) (room : Nat) (good : Call → Frame → Prop) : Caller :=
  open Classical in fun callee args site s =>
    match interpret setting room callee args site s with
    | (.ok frame, t) =>
        if good ⟨room, callee, args, site.loc, s⟩ frame then (.ok frame, t)
        else (.error (.entrySealed callee), t)
    | (.error fault, t) => (.error fault, t)

/-- A script whose answers are good does not notice. -/
theorem Script.run_strict {room : Nat} {good : Call → Frame → Prop} {script : Script α}
    (ran : script.run (interpret setting room) s = (.ok x, t))
    (answers : ∀ inner frame u, script.Makes setting room s inner →
      inner.answer setting = (.ok frame, u) → good inner frame) :
    script.run (strict setting room good) s = (.ok x, t) := by
  induction script generalizing s with
  | done y => exact ran
  | stray jump loc => exact ran
  | call callee args loc next ih =>
      obtain ⟨frame, u, answered, ran⟩ := bind_eq_ok ran
      have strictly : strict setting room good callee args { callee := callee, loc := loc } s =
          (.ok frame, u) := by
        unfold strict
        rw [answered]
        exact if_pos (answers ⟨room, callee, args, loc, s⟩ frame u .here answered)
      rw [Script.run, bind_run, strictly]
      exact ih frame ran fun inner frame u makes => answers inner frame u (.later answered makes)

/-- Behind the answer of a call, the rest of a script is run. -/
theorem Script.Makes.exists_rest {room : Nat} {script : Script α} {u : Session}
    (makes : script.Makes setting room s inner) (answered : inner.answer setting = (.ok frame, u))
    (ran : script.run (interpret setting room) s = (.ok x, t)) :
    ∃ rest : Script α, rest.run (interpret setting room) u = (.ok x, t) := by
  induction makes with
  | @here callee args loc next s =>
      obtain ⟨frame', u', answered', ran⟩ := bind_eq_ok ran
      cases answered.symm.trans answered'
      exact ⟨next frame, ran⟩
  | later answered' _ ih =>
      obtain ⟨frame', u', answered'', ran⟩ := bind_eq_ok ran
      cases answered'.symm.trans answered''
      exact ih answered ran

theorem ends_answer_kept {room : Nat}
    (fits : room + s.stack.length = setting.options.maxCallDepth.toNat) (callee : String)
    (args : List Ty) (loc : Location) (u : Session) (kept : Kept setting s u) :
    Ends (fun _ => Kept setting s) (fun _ _ => True)
      (Call.answer setting ⟨room, callee, args, loc, u⟩) := by
  have inOrder : Call.InOrder setting ⟨room, callee, args, loc, u⟩ :=
    ⟨kept.orderly, by rw [kept.stack.length, fits]⟩
  exact ((keeps_of_inOrder _ inOrder).answered kept).imp (fun _ _ after => after)
    fun _ _ _ => trivial

/-- What every call of a script keeps is kept by the script. -/
theorem Script.kept {room : Nat} {script : Script α}
    (orderly : Orderly setting.options s.cache s.stack)
    (fits : room + s.stack.length = setting.options.maxCallDepth.toNat)
    (ran : script.run (interpret setting room) s = (.ok x, t)) : Kept setting s t :=
  (script.ends (ends_answer_kept fits) (fun _ _ _ _ => trivial) s (.refl orderly)).of_ok ran

/-! ## Passes over a loop -/

/-- Whether what a call is answered outlasts everything up to a later session: behind the answer the
    call has an entry in the cache, or no placeholder moves any more. -/
def Call.Settled (setting : Setting) (call : Call) (t : Session) : Prop :=
  ∀ frame u, call.answer setting = (.ok frame, u) →
    (u.cache.find? (call.key setting)).isSome = true ∨ t.generation = u.generation

/-- What is known behind a script of a call that the script has made. -/
theorem Script.Makes.recalled {room : Nat} {script : Script α} {u : Session}
    (orderly : Orderly setting.options s.cache s.stack)
    (fits : room + s.stack.length = setting.options.maxCallDepth.toNat)
    (ran : script.run (interpret setting room) s = (.ok x, t))
    (makes : script.Makes setting room s inner) (settled : inner.Settled setting t)
    (answered : inner.answer setting = (.ok frame, u)) :
    t.recall? (inner.key setting) = some frame.verdict ∧ Notes inner.session.stack t.stack := by
  obtain ⟨sameRoom, before⟩ :=
    makes.known (Kept setting s) (.refl orderly) (ends_answer_kept fits)
  have inOrder : inner.InOrder setting :=
    ⟨before.orderly, by rw [sameRoom, before.stack.length, fits]⟩
  have kept := (keeps_of_inOrder inner inOrder).of_ok answered
  obtain ⟨rest, further⟩ := makes.exists_rest answered ran
  have behind := rest.kept kept.orderly
    (by rw [kept.stack.length, before.stack.length, fits]) further
  have lasts := rest.lasts (fun inner _ => lasts_of_answer inner) further
  exact ⟨lasts.recall? (recall?_of_answer inOrder answered) (settled frame u answered),
    kept.stack.trans behind.stack⟩

/-- Callers that answer from what is known are alike, as far as bodies tell their answers apart. -/
theorem callersAlike_strict (room : Nat) (t : Session) :
    CallersAlike .blind (fun _ r => Recollects t r)
      (strict setting room fun inner frame =>
        t.recall? (inner.key setting) = some frame.verdict ∧ Notes inner.session.stack t.stack)
      (interpret setting room) := by
  intro callee args loc u r frame frame' u' r' recollects strictly answered
  unfold strict at strictly
  dsimp only at strictly
  split at strictly
  · split at strictly
    · rename_i good
      cases strictly
      obtain ⟨known, notes⟩ := good
      rw [← (notes.trans recollects.stack).key_eq, ← recollects.known] at known
      obtain ⟨again, v, same, verdict, recollects'⟩ :=
        @exists_answer_of_recall? _ ⟨room, callee, args, loc, r⟩ _ known
      cases answered.symm.trans same
      exact ⟨Frame.alike_blind_iff.2 verdict.symm, recollects.trans recollects'⟩
    · cases strictly
  · cases strictly

/-- Whether a pass over a loop makes a call, with `room` more frames allowed on the stack. -/
def Loop.Makes (setting : Setting) (room : Nat) (context : BodyContext) (loop : Loop)
    (head : Environment) (s : Session) (inner : Call) : Prop :=
  ∃ script : Script (Flow × Body),
    (script.Describes fun caller => loop.pass setting caller context head Body.start) ∧
      script.Makes setting room s inner

theorem Loop.exists_script (context : BodyContext) (loop : Loop) (head : Environment) (body : Body) :
    ∃ script : Script (Flow × Body),
      script.Describes fun caller => loop.pass setting caller context head body :=
  (built_loopPass context loop (fun stmts _ env => built_execBlock _ stmts env) head).exists_script
    body

/-- A pass over a loop moves placeholders forward only. -/
theorem Loop.generation_le {room : Nat} {context : BodyContext} {loop : Loop} {head : Environment}
    {body : Body} {r : Flow × Body}
    (passed : loop.pass setting (interpret setting room) context head body s = (.ok r, t)) :
    s.generation ≤ t.generation := by
  obtain ⟨script, follows⟩ := Loop.exists_script context loop head body
  rw [show loop.pass setting (interpret setting room) context head body = _ from follows _]
    at passed
  exact (script.lasts (fun inner _ => lasts_of_answer inner) passed).generation

/-- A pass over a loop during which no placeholder moves leaves all of its calls settled. -/
theorem Loop.Makes.settled {room : Nat} {context : BodyContext} {loop : Loop} {head : Environment}
    {r : Flow × Body} (makes : loop.Makes setting room context head s inner)
    (passed : loop.pass setting (interpret setting room) context head Body.start s = (.ok r, t))
    (still : t.generation = s.generation) : inner.Settled setting t := by
  intro frame u answered
  obtain ⟨script, follows, makes⟩ := makes
  rw [show loop.pass setting (interpret setting room) context head Body.start = _ from follows _]
    at passed
  have rises : ∀ callee args loc u, s.generation ≤ u.generation →
      Ends (fun _ v => s.generation ≤ v.generation) (fun _ _ => True)
        (Call.answer setting ⟨room, callee, args, loc, u⟩) := by
    intro callee args loc u before
    refine ends_of_forall_ok fun frame v answered => ?_
    exact before.trans (lasts_of_answer _ frame v answered).generation
  have before := (makes.known (fun u => s.generation ≤ u.generation) (Nat.le_refl _) rises).2
  have here := (lasts_of_answer inner frame u answered).generation
  obtain ⟨rest, further⟩ := makes.exists_rest answered passed
  have behind := (rest.lasts (fun inner _ => lasts_of_answer inner) further).generation
  exact .inr (by omega)

/-- A pass over a loop that is repeated at once comes to the same, if what its calls were answered
    outlasts it. -/
theorem Loop.eq_of_again {room : Nat} {context : BodyContext} {loop : Loop} {head : Environment}
    {b b' body : Body} {behind again : Flow} {r : Session}
    (orderly : Orderly setting.options s.cache s.stack)
    (fits : room + s.stack.length = setting.options.maxCallDepth.toNat)
    (passed : loop.pass setting (interpret setting room) context head Body.start s =
      (.ok (behind, b), t))
    (settled : ∀ inner, loop.Makes setting room context head s inner → inner.Settled setting t)
    (breaks : body.breaks = []) (continues : body.continues = [])
    (repeated : loop.pass setting (interpret setting room) context head body t =
      (.ok (again, b'), r)) : again = behind := by
  obtain ⟨script, follows⟩ := Loop.exists_script context loop head Body.start
  rw [show loop.pass setting (interpret setting room) context head Body.start = _ from follows _]
    at passed
  have strictly := script.run_strict passed fun inner frame u makes answered =>
    makes.recalled orderly fits passed (settled inner ⟨script, follows, makes⟩) answered
  rw [← follows] at strictly
  have alike : Body.Alike .blind Body.start body :=
    ⟨fun seen => seen.elim, fun seen => seen.elim, fun seen => seen.elim, breaks.symm,
      continues.symm⟩
  have calls := @callersAlike_strict setting room t
  have follows := @follows_loopPass _ _ setting _ _ calls context loop
    (fun stmts _ env => follows_execBlock calls _ stmts env) head Body.start body alike
  exact (follows s t _ _ _ _ (.refl t) strictly repeated).1.1.symm

end Inference

end Multimethod
