import Multimethod.Inference.Run
import Multimethod.Proofs.Inference.Reentry

/-!
# Reached sessions

A run changes its session by few steps: it enters calls, their placeholders move, and calls that
end are answered. The sessions that such steps lead to are tidy, and a run never leaves them.
-/

namespace Multimethod.Inference

/-- The sessions in which a run may enter a call: those between its entry calls, and those behind
    any calls that were made during the passes over the calls on the stack. -/
inductive Reached (setting : Setting) : Session → Prop where
  | start : Reached setting (Session.start setting.options)
  /-- A run begins on an empty cache. -/
  | cleared {s : Session} (before : Reached setting s) :
      Reached setting { s with cache := s.cache.clear, provisional := [] }
  /-- An entry call that met a limit is given up. -/
  | abandoned {s : Session} (before : Reached setting s) :
      Reached setting { s with cache := s.cache.discardPlaceholders, provisional := [] }
  /-- A call is entered, and its first pass begins. -/
  | entered {s t : Session} {callee : String} {args : List Ty} {loc : Location} {x : Unit}
      (before : Reached setting s)
      (entered : enter callee args { callee := callee, loc := loc } (Cache.keyOf callee args) s =
        (.ok x, t)) : Reached setting t
  /-- The placeholder of a call moves, and its next pass begins. -/
  | moved {s : Session} {key : String} {p : Placeholder} (before : Reached setting s)
      (pending : s.cache.pending? key = some p) (next : Ty) (history : List Ty) :
      Reached setting (s.moved key p next history)
  /-- A call is answered, or meets a limit. -/
  | called {s t : Session} {room : Nat} {callee : String} {args : List Ty} {loc : Location}
      {answer : Except Fault Frame} (before : Reached setting s)
      (answered : interpret setting room callee args { callee := callee, loc := loc } s =
        (answer, t)) : Reached setting t

variable {setting : Setting} {callee : String} {args : List Ty} {key : String} {s t : Session}

theorem tidy_enter {site : CallSite} {x : Unit} (tidy : s.Tidy)
    (entered : enter callee args site key s = (.ok x, t)) : t.Tidy := by
  obtain ⟨cache, begun, rfl⟩ := enter_eq_ok entered
  exact tidy_of_begin tidy begun rfl

/-- Reached sessions are tidy. -/
theorem Reached.tidy (reached : Reached setting s) : s.Tidy := by
  induction reached with
  | start => exact ⟨by simp [Session.start, Cache.empty], by simp [Session.start]⟩
  | cleared _ _ => exact ⟨by simp [Cache.clear], by simp⟩
  | abandoned _ ih =>
      exact ⟨fun key result member => ih.finished key result (List.mem_filter.1 member).1, by simp⟩
  | entered _ entered ih => exact tidy_enter ih entered
  | moved _ _ _ _ ih => exact tidy_of_pending ih rfl rfl
  | @called s _ room callee args loc answer _ answered ih =>
      have left := leaves_interpret setting room callee args loc s ih
      rw [answered] at left
      cases answer with
      | ok _ => exact left.tidy
      | error _ => exact left.tidy

/-- Whether a computation leads from reached sessions to reached ones. -/
def Stays (setting : Setting) {α : Type} (m : Infer α) : Prop :=
  ∀ s, Reached setting s → Reached setting (m s).2

section Runs

variable {α β : Type} {m : Infer α} {f : α → Infer β} {entry : EntryCall} {body : Body}

theorem Stays.pure (x : α) : Stays setting (pure x : Infer α) :=
  fun _ reached => reached

theorem Stays.bind (first : Stays setting m) (next : ∀ x, Stays setting (f x)) :
    Stays setting (m >>= f) := by
  intro s reached
  change Reached setting (ExceptT.bindCont f (m s).1 (m s).2).2
  have behind := first s reached
  match m s, behind with
  | (.ok x, t), behind => exact next x t behind
  | (.error _, t), behind => exact behind

theorem stays_catchLimit (inner : Stays setting m) : Stays setting (catchLimit m) := by
  intro s reached
  have behind := inner s reached
  unfold catchLimit
  split <;> simp_all

theorem stays_interpretCall (callee : String) (args : List Ty) (loc : Location) :
    Stays setting (interpretCall setting callee args { callee := callee, loc := loc }) :=
  fun _ reached => .called reached rfl

/-- What the body of an entry call is built from leads from call to call. -/
theorem stays_of_built {m : Caller → Walk α} (built : Built m) (b : Body) :
    Stays setting (m (interpretCall setting) b) := by
  intro s reached
  have kept : KeptBy (interpretCall setting) (fun s _ => Reached setting s) := by
    refine ⟨fun _ _ _ reached _ => reached, fun _ _ _ reached _ => reached, ?_⟩
    intro s _ callee args loc reached
    have behind := stays_interpretCall callee args loc s reached
    match interpretCall setting callee args { callee := callee, loc := loc } s, behind with
    | (.ok _, _), behind => exact behind
    | (.error _, _), behind => exact behind
  have left := built.leaves kept b s [] reached
  match m (interpretCall setting) b s, left with
  | (.ok _, _), left => exact left
  | (.error _, _), left => exact left

theorem stays_runEvaluated : Stays setting (runEvaluated setting entry args body) := by
  unfold runEvaluated
  split
  · exact .pure _
  · split
    · exact .bind (stays_interpretCall _ _ _) fun _ => .pure _
    · exact .bind (stays_of_built (built_resolveCall _ _ args _) body) fun _ => .pure _

theorem stays_abandon (message : String) : Stays setting (abandon entry args message) :=
  fun _ reached => .abandoned reached

theorem stays_runEntry (entry : EntryCall) : Stays setting (runEntry setting entry) := by
  refine .bind (stays_catchLimit (stays_of_built (built_evalAll _ _) _)) fun evaluated => ?_
  match evaluated with
  | .inr message => exact stays_abandon message
  | .inl (args, body) =>
      refine .bind (stays_catchLimit stays_runEvaluated) fun outcome => ?_
      match outcome with
      | .inr message => exact stays_abandon message
      | .inl frame => exact .pure _

/-- A run only leads to reached sessions. -/
theorem reached_runEntries (reached : Reached setting s) (file : String)
    (entries : List EntryCall) : Reached setting (runEntries setting file entries s).2 := by
  have each : Stays setting (entries.mapM (runEntry setting)) := by
    induction entries with
    | nil => exact .pure _
    | cons entry entries ih =>
        rw [List.mapM_cons]
        exact .bind (stays_runEntry entry) fun _ => .bind ih fun _ => .pure _
  have all : Stays setting (runEntries setting file entries) := by
    refine .bind (fun _ reached => .cleared reached) fun _ => .bind each fun _ => ?_
    exact .bind (fun _ reached => reached) fun _ => .pure _
  exact all s reached

end Runs

end Multimethod.Inference
