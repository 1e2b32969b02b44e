import Multimethod.Inference.Run
import Multimethod.Proofs.Inference.Calls
import Multimethod.Proofs.Inference.Stack

/-!
# What a call keeps

A call that is answered leaves stack and cache orderly, the calls on the stack as they were, and
every finished entry in place. A call that is stopped leaves a cache of which only pending entries
have to be dropped. This is proved along the recursion of the interpreter, and then for the entry
calls of a run.
-/

namespace Multimethod.Inference

open Dispatch

/-- The faults that can stop a call. -/
inductive Stop (setting : Setting) : Fault → Prop where
  | callDepth : Stop setting (.limit .callDepth setting.options.maxCallDepth)
  | cacheEntries : Stop setting (.limit .cacheEntries setting.options.maxCacheEntries)
  | stray (jump : Jump) (loc : Location) :
      Stop setting (.malformed (.strayJump jump.keyword) (some loc))

/-- Whether a stack has become another one by what its innermost frame depends on. -/
inductive Notes : List Active → List Active → Prop where
  | none : Notes [] []
  | top {top : Active} {below : List Active} (dependsOn : Option Nat) :
      Notes (top :: below) ({ top with dependsOn := dependsOn } :: below)

/-- What has come to be between two sessions if all calls made meanwhile were answered. -/
structure Kept (setting : Setting) (s t : Session) : Prop where
  orderly : Orderly setting.options t.cache t.stack
  stack : Notes s.stack t.stack
  finished : ∀ key result, s.cache.find? key = some (.finished result) →
    t.cache.find? key = some (.finished result)

/-- What has come to be if a fault was met meanwhile, and `height` frames are left on the stack. -/
structure Halted (setting : Setting) (s : Session) (height : Nat) (fault : Fault) (t : Session) :
    Prop where
  stop : Stop setting fault
  height : t.stack.length = height
  orderly : ∃ stack, Orderly setting.options t.cache stack
  finished : ∀ key result, s.cache.find? key = some (.finished result) →
    t.cache.find? key = some (.finished result)

/-- What has come to be since a session in which the call of `key` was entered, while it is being
    analysed. -/
structure Open (setting : Setting) (s : Session) (key : String) (t : Session) : Prop where
  orderly : Orderly setting.options t.cache t.stack
  stack : ∃ own, t.stack = own :: s.stack ∧ own.key = key
  finished : ∀ key result, s.cache.find? key = some (.finished result) →
    t.cache.find? key = some (.finished result)

variable {setting : Setting} {α β : Type} {good : α → Session → Prop}
  {bad : Fault → Session → Prop} {s t u : Session} {height : Nat} {fault : Fault} {key : String}
  {callee : String} {args : List Ty} {loc : Location} {p : Placeholder} {frame : Frame}
  {old mid new : List Active}

/-! ## Between sessions -/

theorem Notes.refl (stack : List Active) : Notes stack stack := by
  cases stack with
  | nil => exact .none
  | cons top below => exact .top top.dependsOn

theorem Notes.trans (first : Notes old mid) (second : Notes mid new) : Notes old new := by
  cases first with
  | none => exact second
  | top _ =>
      cases second with
      | top dependsOn => exact .top dependsOn

theorem Notes.length (notes : Notes old new) : new.length = old.length := by
  cases notes <;> rfl

theorem notes_dependOn (stack : List Active) (depth : Nat) :
    Notes stack (dependOn stack depth) := by
  rcases dependOn_cases stack depth with same | ⟨top, below, rfl, -, noted⟩
  · rw [same]
    exact .refl stack
  · rw [noted]
    exact .top _

theorem Kept.refl (orderly : Orderly setting.options s.cache s.stack) : Kept setting s s where
  orderly := orderly
  stack := .refl s.stack
  finished _ _ found := found

theorem Kept.trans (first : Kept setting s t) (second : Kept setting t u) : Kept setting s u where
  orderly := second.orderly
  stack := first.stack.trans second.stack
  finished key result found := second.finished key result (first.finished key result found)

theorem Kept.halted (first : Kept setting s t) (second : Halted setting t height fault u) :
    Halted setting s height fault u where
  stop := second.stop
  height := second.height
  orderly := second.orderly
  finished key result found := second.finished key result (first.finished key result found)

theorem Halted.here (orderly : Orderly setting.options s.cache s.stack)
    (stop : Stop setting fault) : Halted setting s s.stack.length fault s where
  stop := stop
  height := rfl
  orderly := ⟨s.stack, orderly⟩
  finished _ _ found := found

theorem Open.length (opened : Open setting s key t) : t.stack.length = s.stack.length + 1 := by
  obtain ⟨own, stack, -⟩ := opened.stack
  rw [stack, List.length_cons]

theorem Open.pending (opened : Open setting s key t) :
    ∃ p, t.cache.find? key = some (.pending p) := by
  obtain ⟨own, stack, rfl⟩ := opened.stack
  have orderly := opened.orderly
  rw [stack] at orderly
  obtain ⟨p, pending, -⟩ := orderly.innermost
  exact ⟨p, pending⟩

theorem Open.kept (opened : Open setting s key t) (kept : Kept setting t u) :
    Open setting s key u where
  orderly := kept.orderly
  stack := by
    obtain ⟨own, stack, named⟩ := opened.stack
    have notes := kept.stack
    rw [stack] at notes
    generalize same : u.stack = after at notes ⊢
    cases notes with
    | top dependsOn => exact ⟨_, rfl, named⟩
  finished key result found := kept.finished key result (opened.finished key result found)

theorem Open.halted (opened : Open setting s key t) (halted : Halted setting t height fault u) :
    Halted setting s height fault u where
  stop := halted.stop
  height := halted.height
  orderly := halted.orderly
  finished key result found := halted.finished key result (opened.finished key result found)

/-! ## The steps of a call -/

/-- Setting the placeholder of a pending key changes no finished entry. -/
theorem finished_setPlaceholder {name : String} {result : Inferred} {cache : Cache}
    {q : Placeholder} (pending : cache.find? key = some (.pending p))
    (found : cache.find? name = some (.finished result)) :
    (cache.setPlaceholder key q).find? name = some (.finished result) := by
  refine (find?_setPlaceholder cache key name q).trans ((if_neg fun same => ?_).trans found)
  rw [same, found] at pending
  cases pending

/-- A call about which nothing is known is entered, if the cache has room. -/
theorem ends_enter (orderly : Orderly setting.options s.cache s.stack)
    (unknown : s.cache.find? (Cache.keyOf callee args) = none)
    (room : s.stack.length < setting.options.maxCallDepth.toNat) :
    Ends (fun _ => Open setting s (Cache.keyOf callee args)) (Halted setting s s.stack.length)
      (enter callee args { callee := callee, loc := loc } (Cache.keyOf callee args) s) := by
  unfold enter
  rw [get_bind]
  cases begun : s.cache.begin (Cache.keyOf callee args) s.stack.length with
  | error fault =>
      have full : fault = .limit .cacheEntries setting.options.maxCacheEntries := by
        unfold Cache.begin at begun
        rw [orderly.limit] at begun
        split at begun
        · exact (Except.error.inj begun).symm
        · cases begun
      rw [full]
      exact .here orderly .cacheEntries
  | ok cache =>
      refine ⟨orderly.enter unknown room begun, ⟨_, rfl, rfl⟩, fun name result found => ?_⟩
      refine (find?_begin begun).trans ((if_neg fun same => ?_).trans found)
      rw [same, found] at unknown
      cases unknown

theorem ends_reenter {site : CallSite} (orderly : Orderly setting.options s.cache s.stack)
    (found : s.cache.find? key = some (.pending p)) :
    Ends (fun _ => Kept setting s) bad (reenter key p site args s) where
  orderly := by
    have met : Orderly setting.options (s.cache.setPlaceholder key { p with reentered := true })
        s.stack := orderly.setPlaceholder found rfl rfl
    exact met.dependOn _
  stack := notes_dependOn _ _
  finished _ _ := finished_setPlaceholder found

theorem ends_reuse {site : CallSite} (orderly : Orderly setting.options s.cache s.stack)
    (memo : Provisional) : Ends (fun _ => Kept setting s) bad (reuse memo site args s) where
  orderly := orderly.dependOn _
  stack := notes_dependOn _ _
  finished _ _ found := found

/-- Moving a placeholder keeps what has to be kept. -/
theorem Kept.moved (kept : Kept setting s t) (pending : t.cache.pending? key = some p)
    (next : Ty) (history : List Ty) : Kept setting s (t.moved key p next history) where
  orderly := kept.orderly.setPlaceholder (find?_of_pending? pending) rfl rfl
  stack := kept.stack
  finished name result found :=
    finished_setPlaceholder (find?_of_pending? pending) (kept.finished name result found)

theorem Open.moved (opened : Open setting s key t) (pending : t.cache.pending? key = some p)
    (next : Ty) (history : List Ty) : Open setting s key (t.moved key p next history) :=
  opened.kept ((Kept.refl opened.orderly).moved pending next history)

/-- The result of the innermost call is stored once the call has left the stack. -/
theorem ends_store {converged : Bool} (opened : Open setting s key t) :
    Ends (fun _ => Kept setting s) bad
      (store key (t.stack.head?.bind (·.dependsOn)) frame converged
        { t with stack := t.stack.tail }) := by
  obtain ⟨own, stack, rfl⟩ := opened.stack
  have orderly := opened.orderly
  rw [stack] at orderly ⊢
  obtain ⟨p, pending, -⟩ := orderly.innermost
  have kept : ∀ name result, s.cache.find? name = some (.finished result) → own.key ≠ name := by
    rintro _ result found rfl
    rw [opened.finished _ result found] at pending
    cases pending
  unfold store
  rw [get_bind]
  dsimp only [List.tail_cons, List.head?_cons, Option.bind_some]
  cases headOf s.stack own.dependsOn with
  | some head =>
      refine ⟨orderly.discard.dependOn _, notes_dependOn _ _, fun name result found => ?_⟩
      exact (find?_discard_of_ne (kept name result found)).trans (opened.finished _ _ found)
  | none =>
      have finished := finish_of_pending pending ⟨frame, converged⟩
      rw [finished]
      refine ⟨orderly.finish finished, .refl _, fun name result found => ?_⟩
      exact (find?_finish finished).trans ((if_neg (kept name result found)).trans
        (opened.finished _ _ found))

/-! ## Passes -/

section Passes

variable {pass : Infer Frame} {made good : Frame → Prop} {known : Session → Prop}
  (passes : ∀ t, known t → Ends (fun frame u => made frame ∧ known u) bad (pass t))
  (moved : ∀ t p frame iteration, known t → made frame → t.cache.pending? key = some p →
    known (t.moved key p (nextReturn setting p frame.ret iteration).1
      (nextReturn setting p frame.ret iteration).2))
  (stays : ∀ frame, made frame → good frame)
  (raised : ∀ t p frame iteration, known t → made frame → t.cache.pending? key = some p →
    good { frame with ret := (nextReturn setting p frame.ret iteration).1 })
  (topped : ∀ frame, made frame → good { frame with ret := .any })
include passes moved stays raised topped

/-- A fixpoint comes to the frame of its last pass, but for what the frame returns. -/
theorem ends_settle {frame : Frame} (last : made frame) {t : Session} (before : known t)
    (left iteration : Nat) :
    Ends (fun r u => good r.1 ∧ known u) bad
      (settle setting pass key left iteration frame t) := by
  rw [settle_eq]
  cases pending : t.cache.pending? key with
  | none => exact And.intro (stays frame last) before
  | some p =>
      dsimp only
      split
      · exact And.intro (stays frame last) before
      · split
        · exact And.intro (raised t p frame iteration before last pending) before
        · match left with
          | 0 => exact And.intro (topped frame last) before
          | left + 1 =>
              have next := passes _ (moved t p frame iteration before last pending)
              exact Ends.bind next fun again u _ after =>
                ends_settle after.1 after.2 left (iteration + 1)

theorem ends_fixpoint_frame (before : known t) :
    Ends (fun r u => good r.1 ∧ known u) bad (fixpoint setting pass key t) :=
  Ends.bind (passes t before) fun _ _ _ after =>
    ends_settle passes moved stays raised topped after.1 after.2 _ 1

end Passes

theorem ends_fixpoint {pass : Infer Frame} {known : Session → Prop}
    (passes : ∀ t, known t → Ends (fun _ => known) bad (pass t))
    (moved : ∀ t p next history, known t → t.cache.pending? key = some p →
      known (t.moved key p next history)) (before : known t) :
    Ends (fun _ => known) bad (fixpoint setting pass key t) := by
  let all : Frame → Prop := fun _ => True
  have passes : ∀ t, known t → Ends (fun frame u => all frame ∧ known u) bad (pass t) :=
    fun t before => (passes t before).imp (fun _ _ after => ⟨trivial, after⟩) fun _ _ met => met
  have fixed : Ends (fun r u => all r.1 ∧ known u) bad (fixpoint setting pass key t) :=
    ends_fixpoint_frame passes (fun t p _ _ before _ pending => moved t p _ _ before pending)
      (fun _ _ => trivial) (fun _ _ _ _ _ _ _ => trivial) (fun _ _ => trivial) before
  exact fixed.imp (fun _ _ after => after.2) fun _ _ met => met

/-! ## Calls -/

/-- Whether stack and cache are orderly where a call is made, and the call has all the room that is
    left on the stack. -/
structure Call.InOrder (setting : Setting) (call : Call) : Prop where
  orderly : Orderly setting.options call.session.cache call.session.stack
  room : call.room + call.session.stack.length = setting.options.maxCallDepth.toNat

/-- Whether a call keeps what has to be kept. -/
def Call.Keeps (setting : Setting) (call : Call) : Prop :=
  Ends (fun _ => Kept setting call.session)
    (Halted setting call.session call.session.stack.length) (call.answer setting)

theorem Call.Keeps.answered {room : Nat}
    (keeps : Call.Keeps setting ⟨room, callee, args, loc, t⟩) (kept : Kept setting s t) :
    Ends (fun _ => Kept setting s) (Halted setting s s.stack.length)
      (interpret setting room callee args { callee := callee, loc := loc } t) := by
  refine Ends.imp keeps (fun _ u after => kept.trans after) fun fault u halted => ?_
  exact kept.stack.length ▸ kept.halted halted

/-- A pass keeps what its calls keep. -/
theorem ends_pass {room : Nat} (callee : String) (args : List Ty) (loc : Location)
    (keeps : ∀ call : Call, call.room = room → call.InOrder setting → call.Keeps setting)
    (orderly : Orderly setting.options t.cache t.stack)
    (fits : room + t.stack.length = setting.options.maxCallDepth.toNat) :
    Ends (fun _ => Kept setting t) (Halted setting t t.stack.length)
      (dispatchPass setting (interpret setting room) callee args { callee := callee, loc := loc }
        t) := by
  obtain ⟨script, follows⟩ := exists_script_dispatchPass setting callee args
    { callee := callee, loc := loc }
  rw [show dispatchPass setting (interpret setting room) callee args _ = _ from follows _]
  refine script.ends (fun callee args loc v kept => ?_) (fun jump loc v kept => ?_) t
    (.refl orderly)
  · refine Call.Keeps.answered (keeps ⟨room, callee, args, loc, v⟩ rfl ⟨kept.orderly, ?_⟩) kept
    rw [kept.stack.length, fits]
  · exact ⟨.stray jump loc, kept.stack.length, ⟨_, kept.orderly⟩, kept.finished⟩

/-- The sessions in which the passes over a call begin are among the sessions known. -/
theorem Begins.known {pass : Infer Frame} {known : Session → Prop} {passes : Nat}
    (begins : Begins setting pass key s passes t) (before : known s)
    (ends : ∀ t, known t → Ends (fun _ => known) bad (pass t))
    (moved : ∀ t p next history, known t → t.cache.pending? key = some p →
      known (t.moved key p next history)) : known t := by
  induction begins with
  | first => exact before
  | again _ moves _ ih =>
      obtain ⟨frame, u, p, next, history, passed, pending, -, -, -, rfl⟩ := nextPass_eq_some moves
      exact moved _ _ _ _ ((ends _ ih).of_ok passed) pending

/-- The sessions in which a script makes its calls are among the sessions known. -/
theorem Script.Makes.known {room : Nat} {script : Script α} {call : Call}
    (makes : script.Makes setting room s call) (known : Session → Prop) (before : known s)
    (calls : ∀ callee args loc s, known s → Ends (fun _ => known) bad
      (Call.answer setting ⟨room, callee, args, loc, s⟩)) :
    call.room = room ∧ known call.session := by
  induction makes with
  | here => exact ⟨rfl, before⟩
  | later answered _ ih => exact ih ((calls _ _ _ _ before).of_ok answered)

variable {call : Call}

/-- A call is analysed between the session in which it is entered and the one in which its result
    is stored. -/
theorem ends_enters (inOrder : call.InOrder setting) (new : call.IsNew setting)
    (room : call.room ≠ 0) :
    Ends (fun _ => Open setting call.session (call.key setting))
      (Halted setting call.session call.session.stack.length)
      (enter call.callee (call.widened setting) call.site (call.key setting) call.session) := by
  have fits := inOrder.room
  exact ends_enter inOrder.orderly new.unknown (by omega)

/-- What a pass over a call keeps, if the calls within it keep what has to be kept. -/
theorem Open.ends_pass (inOrder : call.InOrder setting) (room : call.room ≠ 0)
    (keeps : ∀ inner : Call, inner.room = call.room - 1 → inner.InOrder setting →
      inner.Keeps setting) (opened : Open setting call.session (call.key setting) t) :
    Ends (fun _ => Kept setting t) (Halted setting call.session (call.session.stack.length + 1))
      (call.pass setting t) := by
  have fits := inOrder.room
  have inside := Inference.ends_pass call.callee (call.widened setting) call.loc keeps
    opened.orderly (by rw [opened.length]; omega)
  rw [opened.length] at inside
  exact inside.imp (fun _ _ kept => kept) fun _ _ => opened.halted

/-- What all passes over a call keep. -/
theorem Open.ends_fixpoint (inOrder : call.InOrder setting) (room : call.room ≠ 0)
    (keeps : ∀ inner : Call, inner.room = call.room - 1 → inner.InOrder setting →
      inner.Keeps setting) (opened : Open setting call.session (call.key setting) t) :
    Ends (fun _ => Open setting call.session (call.key setting))
      (Halted setting call.session (call.session.stack.length + 1))
      (fixpoint setting (call.pass setting) (call.key setting) t) :=
  Inference.ends_fixpoint
    (fun _ opened => (opened.ends_pass inOrder room keeps).imp (fun _ _ => opened.kept)
      fun _ _ halted => halted)
    (fun _ _ next history opened pending => opened.moved pending next history) opened

theorem ends_popOnExit {inner : Infer α} (ends : Ends good bad (inner t)) :
    Ends (fun x u => ∃ v, good x v ∧ u = { v with stack := v.stack.tail })
      (fun fault u => ∃ v, bad fault v ∧ u = { v with stack := v.stack.tail })
      (popOnExit inner t) := by
  unfold popOnExit
  match inner t, ends with
  | (.ok x, v), ends => exact ⟨v, ends, rfl⟩
  | (.error fault, v), ends => exact ⟨v, ends, rfl⟩

/-- A call that is analysed keeps what has to be kept, if the calls within it do. -/
theorem ends_analysis (inOrder : call.InOrder setting) (new : call.IsNew setting)
    (room : call.room ≠ 0) (keeps : ∀ inner : Call, inner.room = call.room - 1 →
      inner.InOrder setting → inner.Keeps setting) :
    Ends (fun _ => Kept setting call.session)
      (Halted setting call.session call.session.stack.length)
      (call.analysis setting call.session) := by
  refine Ends.bind (ends_enters inOrder new room) fun _ t _ opened => ?_
  have settled := opened.ends_fixpoint inOrder room keeps
  have inner : Ends
      (fun (r : Frame × Bool × Option Nat) v => Open setting call.session (call.key setting) v ∧
        r.2.2 = v.stack.head?.bind (·.dependsOn))
      (Halted setting call.session (call.session.stack.length + 1))
      (call.passes setting t) :=
    Ends.bind settled fun _ _ _ opened => And.intro opened rfl
  have left := ends_popOnExit inner
  have halted : ∀ fault u, (∃ v, Halted setting call.session (call.session.stack.length + 1)
      fault v ∧ u = { v with stack := v.stack.tail }) →
      Halted setting call.session call.session.stack.length fault u := by
    rintro fault _ ⟨v, halted, rfl⟩
    refine ⟨halted.stop, ?_, halted.orderly, halted.finished⟩
    rw [List.length_tail, halted.height, Nat.add_sub_cancel]
  refine Ends.bind (left.imp (fun _ _ after => after) halted) ?_
  rintro ⟨frame, converged, _⟩ _ - ⟨v, ⟨opened, rfl⟩, rfl⟩
  exact Ends.bind (ends_store opened) fun _ w _ kept => kept

/-- Whatever a call comes to, it keeps what has to be kept. -/
theorem keeps_of_inOrder (call : Call) (inOrder : call.InOrder setting) : call.Keeps setting := by
  have keeps : ∀ inner : Call, call.room ≠ 0 → inner.room = call.room - 1 →
      inner.InOrder setting → inner.Keeps setting := by
    intro inner room less inOrder
    exact keeps_of_inOrder inner inOrder
  unfold Call.Keeps
  refine Call.ends_answer ?finished ?pending ?shelved ?full ?analysed
  case finished => exact fun _ _ => .refl inOrder.orderly
  case pending => exact fun _ found => ends_reenter inOrder.orderly found
  case shelved => exact fun memo _ _ => ends_reuse inOrder.orderly memo
  case full => exact fun _ _ => .here inOrder.orderly .callDepth
  case analysed => exact fun new room => ends_analysis inOrder new room fun inner => keeps inner room
termination_by call.room

end Multimethod.Inference
