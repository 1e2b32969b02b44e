import Multimethod.Proofs.Inference.Counting
import Multimethod.Proofs.Inference.Keeping

/-!
# What a run remembers of earlier ones

A session that was used before differs from a new one in its counters and, if an earlier call was
aborted, in what is left in its cache. A run drops the latter, and the counters never show.
-/

namespace Multimethod.Inference

open Dispatch

variable {setting : Setting} {α β : Type} {m : Infer α} {f : α → Infer β} {key : String}
  {args : List Ty} {entry : EntryCall} {body : Body}

/-! ## What a use of a session leaves -/

/-- Whether a session has as many frames on the stack and as much room in its cache. -/
structure Level (s t : Session) : Prop where
  height : t.stack.length = s.stack.length
  limit : t.cache.maxEntries = s.cache.maxEntries

/-- Whether a computation takes off the stack what it puts there, whatever it comes to. -/
def Levels {α : Type} (m : Infer α) : Prop :=
  ∀ s, Level s (m s).2

theorem Level.refl (s : Session) : Level s s :=
  ⟨rfl, rfl⟩

theorem Level.trans {s t u : Session} (first : Level s t) (second : Level t u) : Level s u :=
  ⟨second.height.trans first.height, second.limit.trans first.limit⟩

theorem Levels.pure (x : α) : Levels (pure x : Infer α) :=
  fun s => .refl s

theorem Levels.bind (first : Levels m) (next : ∀ x, Levels (f x)) : Levels (m >>= f) := by
  intro s
  have behind := first s
  rw [bind_run]
  match m s, behind with
  | (.ok x, t), behind => exact behind.trans (next x t)
  | (.error _, t), behind => exact behind

theorem length_dependOn (stack : List Active) (depth : Nat) :
    (dependOn stack depth).length = stack.length :=
  (notes_dependOn stack depth).length

theorem levels_store (key : String) (dependsOn : Option Nat) (frame : Frame) (converged : Bool) :
    Levels (store key dependsOn frame converged) := by
  intro s
  unfold store
  rw [get_bind]
  cases headOf s.stack dependsOn with
  | some head => exact ⟨length_dependOn _ _, maxEntries_discard _ _⟩
  | none =>
      dsimp only
      cases finished : s.cache.finish key ⟨frame, converged⟩ with
      | error fault => exact .refl s
      | ok cache =>
          refine ⟨rfl, ?_⟩
          unfold Cache.finish at finished
          split at finished
          · cases finished
          · cases finished
            rfl

theorem levels_settle {pass : Infer Frame} (passes : Levels pass) (key : String)
    (left iteration : Nat) (frame : Frame) :
    Levels (settle setting pass key left iteration frame) := by
  intro s
  rw [settle_eq]
  split
  · exact .refl s
  · split
    · exact .refl s
    · dsimp only
      split
      · exact .refl s
      · match left with
        | 0 => exact .refl s
        | left + 1 =>
            have again := passes.bind (levels_settle passes key left (iteration + 1))
            exact ⟨(again _).height, (again _).limit⟩

theorem Script.levels {caller : Caller}
    (calls : ∀ callee args loc, Levels (caller callee args { callee := callee, loc := loc }))
    (script : Script α) : Levels (script.run caller) := by
  induction script with
  | done x => exact .pure x
  | stray jump loc => exact fun s => .refl s
  | call callee args loc next ih => exact (calls callee args loc).bind ih

/-- What runs with one more frame on the stack takes it off again, also after a fault. -/
theorem level_popOnExit {inner : Infer α} {f : α → Infer β} (levels : Levels inner)
    (next : ∀ x, Levels (f x)) {s t : Session} (height : t.stack.length = s.stack.length + 1)
    (limit : t.cache.maxEntries = s.cache.maxEntries) :
    Level s ((popOnExit inner >>= f) t).2 := by
  have within := levels t
  rw [bind_run, popOnExit]
  match inner t, within with
  | (result, u), within =>
      have left : Level s { u with stack := u.stack.tail } :=
        ⟨by simp [within.height, height], within.limit.trans limit⟩
      cases result with
      | ok x => exact left.trans (next x _)
      | error fault => exact left

theorem level_enter {callee : String} {site : CallSite} {inner : Infer α} {f : α → Infer β}
    (levels : Levels inner) (next : ∀ x, Levels (f x)) (s : Session) :
    Level s ((enter callee args site key >>= fun _ => popOnExit inner >>= f) s).2 := by
  unfold enter
  rw [bind_assoc, get_bind]
  cases begun : s.cache.begin key s.stack.length with
  | error fault => exact .refl s
  | ok cache =>
      obtain ⟨-, rfl⟩ := begin_eq_ok begun
      exact level_popOnExit levels next rfl rfl

/-- Every way of leaving a call, also by a fault, restores the stack. -/
theorem levels_interpret (room : Nat) (callee : String) (args : List Ty) (site : CallSite) :
    Levels (interpret setting room callee args site) := by
  intro s
  unfold interpret
  rw [get_bind]
  dsimp only
  cases s.cache.find? _ with
  | some entry =>
      cases entry with
      | finished result => exact .refl s
      | pending p => exact ⟨length_dependOn _ _, rfl⟩
  | none =>
      dsimp only
      cases Option.filter (isCurrent s) _ with
      | some memo => exact ⟨length_dependOn _ _, rfl⟩
      | none =>
          cases room with
          | zero => exact .refl s
          | succ room =>
              refine level_enter ?_ (fun result => ?_) s
              · obtain ⟨script, follows⟩ := exists_script_dispatchPass setting callee
                  (widenRecursiveArgs setting s.stack callee args site) site
                have passes : Levels (dispatchPass setting (interpret setting room) callee
                    (widenRecursiveArgs setting s.stack callee args site) site) := by
                  rw [show dispatchPass setting _ _ _ _ = _ from follows (interpret setting room)]
                  exact script.levels fun callee args loc =>
                    levels_interpret room callee args { callee := callee, loc := loc }
                refine (passes.bind (levels_settle passes _ _ 1)).bind fun result => ?_
                exact fun t => .refl t
              · exact (levels_store _ _ _ _).bind fun _ => .pure _

theorem levels_of_built {m : Caller → Walk α} (built : Built m) (b : Body) :
    Levels (m (interpretCall setting) b) := by
  obtain ⟨script, follows⟩ := built.exists_script b
  rw [show m (interpretCall setting) b = _ from follows _]
  exact script.levels fun callee args loc => levels_interpret _ callee args _

theorem levels_catchLimit (inner : Levels m) : Levels (catchLimit m) := by
  intro s
  have behind := inner s
  unfold catchLimit
  split <;> simp_all

theorem levels_runEvaluated : Levels (runEvaluated setting entry args body) := by
  unfold runEvaluated
  split
  · exact .pure _
  · split
    · exact Levels.bind (levels_interpret _ _ _ _) fun _ => .pure _
    · exact (levels_of_built (built_resolveCall _ _ args _) body).bind fun _ => .pure _

theorem levels_runEntry (entry : EntryCall) : Levels (runEntry setting entry) := by
  refine (levels_catchLimit (levels_of_built (built_evalAll _ _) _)).bind fun evaluated => ?_
  match evaluated with
  | .inr message => exact fun _ => ⟨rfl, rfl⟩
  | .inl (args, body) =>
      refine (levels_catchLimit levels_runEvaluated).bind fun outcome => ?_
      match outcome with
      | .inr message => exact fun _ => ⟨rfl, rfl⟩
      | .inl frame => exact .pure _

theorem levels_runEntries (file : String) (entries : List EntryCall) :
    Levels (runEntries setting file entries) := by
  have each : Levels (entries.mapM (runEntry setting)) := by
    induction entries with
    | nil => exact .pure _
    | cons entry entries ih =>
        rw [List.mapM_cons]
        exact (levels_runEntry entry).bind fun _ => ih.bind fun _ => .pure _
  have cleared : Levels (modify fun s : Session =>
      { s with cache := s.cache.clear, provisional := [] }) := fun _ => ⟨rfl, rfl⟩
  exact cleared.bind fun _ => each.bind fun _ => fun s => .refl s

/-! ## Sequences of uses -/

/-- A use of a session: a run, or a single call that is analysed on what the session remembers. -/
inductive Use where
  | run (file : String) (entries : List EntryCall)
  | call (callee : String) (args : List Ty) (site : CallSite)

/-- The session behind a use, whatever it comes to. A single call has the room that the stack
    leaves it. -/
def Use.behind (setting : Setting) (s : Session) : Use → Session
  | run file entries => (runEntries setting file entries s).2
  | call callee args site =>
      (interpret setting (setting.options.maxCallDepth.toNat - s.stack.length) callee args site s).2

theorem Use.level (use : Use) (s : Session) : Level s (use.behind setting s) := by
  cases use with
  | run file entries => exact levels_runEntries file entries s
  | call callee args site => exact levels_interpret _ callee args site s

theorem level_behind_uses (setting : Setting) (uses : List Use) (s : Session) :
    Level s (uses.foldl (Use.behind setting) s) := by
  induction uses generalizing s with
  | nil => exact .refl s
  | cons use uses ih => exact (use.level s).trans (ih _)

/-- A run in a session that was used before, in whatever way and with whatever success, begins with
    nothing on the stack and comes to what it comes to in a new session. -/
theorem run_behind_uses (setting : Setting) (uses : List Use) (file : String)
    (entries : List EntryCall) :
    (uses.foldl (Use.behind setting) (Session.start setting.options)).stack = [] ∧
      (runEntries setting file entries
          (uses.foldl (Use.behind setting) (Session.start setting.options))).1 =
        run setting file entries := by
  obtain ⟨height, limit⟩ := level_behind_uses setting uses
    (Session.start setting.options)
  generalize uses.foldl (Use.behind setting) (Session.start setting.options) = s at height limit
  have empty : s.stack = [] := List.length_eq_zero_iff.1 height
  refine ⟨empty, ?_⟩
  -- what is left once the run has dropped what is cached is a new session that has counted further
  have cleared : ({ s with cache := s.cache.clear, provisional := [] } : Session) =
      (Session.start setting.options).later s.generation s.cache.begun := by
    change s.cache.maxEntries = setting.options.maxCacheEntries at limit
    simp [Session.later, Session.start, Cache.later, Cache.clear, Cache.empty, Assoc.mapValues,
      empty, limit]
  have again : runEntries setting file entries s = runEntries setting file entries
      ((Session.start setting.options).later s.generation s.cache.begun) := by
    have twice : runEntries setting file entries
        { s with cache := s.cache.clear, provisional := [] } =
          runEntries setting file entries s := rfl
    rw [← twice, cleared]
  rw [again, commutes_runEntries]
  rfl

end Multimethod.Inference
