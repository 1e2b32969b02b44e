import Multimethod.Proofs.Assoc
import Multimethod.Proofs.Inference.Making
import Multimethod.Proofs.Inference.Memo
import Multimethod.Proofs.Inference.Passes

/-!
# Calls that are entered again

While a call is pending, every call with its key is answered by a frame that returns what the
placeholder returns, and the placeholder remembers that it was met. Until the placeholder moves,
all such frames return the same. No frame of an earlier time gets among them: what is rebuilt
from a stored result keeps only children that lead to a diagnostic, and a frame that enters a
call again leads to none.
-/

namespace Multimethod

namespace Frame

/-- Whether a frame of a tree that enters a call again is always a leaf without diagnostics. -/
def EndsAtRecursion (frame : Frame) : Prop :=
  ∀ g, Within g frame → g.origin = .recursive → g.errors = [] ∧ g.children = []

/-- Whether no frame of a tree enters a call again. -/
def RecursionFree (frame : Frame) : Prop :=
  ∀ g, Within g frame → g.origin ≠ .recursive

theorem RecursionFree.ends {frame : Frame} (free : frame.RecursionFree) :
    frame.EndsAtRecursion :=
  fun g within recursive => absurd recursive (free g within)

theorem EndsAtRecursion.child {frame c : Frame} (ends : frame.EndsAtRecursion)
    (member : c ∈ frame.children) : c.EndsAtRecursion :=
  fun g within => ends g (.child member within)

theorem ends_of_children {frame : Frame} (origin : frame.origin ≠ .recursive)
    (children : ∀ c ∈ frame.children, c.EndsAtRecursion) : frame.EndsAtRecursion := by
  intro g within recursive
  rcases within_iff.1 within with rfl | ⟨c, member, below⟩
  · exact absurd recursive origin
  · exact children c member g below recursive

mutual

/-- A pruned tree that leads to a diagnostic enters no call again. -/
theorem recursionFree_prune (frame : Frame) (ends : frame.EndsAtRecursion)
    (leads : frame.hasErrors = true) : frame.prune.RecursionFree := by
  match frame with
  | ⟨site, args, ret, status, origin, errors, children⟩ =>
      intro g within recursive
      rw [prune] at within
      rcases within_iff.1 within with rfl | ⟨c, member, below⟩
      · obtain ⟨nothing, none⟩ := ends _ (.self _) recursive
        dsimp only at nothing none
        subst nothing none
        simp [hasErrors, someHasErrors] at leads
      · exact recursionFree_pruneAll children (fun c hc => ends.child hc) c member g below recursive

theorem recursionFree_pruneAll (frames : List Frame) (ends : ∀ f ∈ frames, f.EndsAtRecursion) :
    ∀ f ∈ pruneAll frames, f.RecursionFree := by
  match frames with
  | [] => simp [pruneAll]
  | frame :: frames =>
      have rest := recursionFree_pruneAll frames fun f hf => ends f (List.mem_cons_of_mem _ hf)
      rw [pruneAll]
      split
      · rename_i leads
        intro f hf
        rcases List.mem_cons.1 hf with rfl | hf
        · exact recursionFree_prune frame (ends frame List.mem_cons_self) leads
        · exact rest f hf
      · exact rest

end

end Frame

namespace Inference

open Multimethod.Frame

theorem recursionFree_frameFromCache {source : Frame} (ends : source.EndsAtRecursion)
    (site : CallSite) (args : List Ty) : (frameFromCache source site args).RecursionFree := by
  intro g within recursive
  rcases within_iff.1 within with rfl | ⟨c, member, below⟩
  · cases recursive
  · exact recursionFree_pruneAll source.children (fun c hc => ends.child hc) c member g below
      recursive

/-! ## Sessions -/

/-- Sessions whose stored results lead to nothing through calls that are entered again. -/
structure Session.Tidy (s : Session) : Prop where
  finished : ∀ key result, (key, .finished result) ∈ s.cache.entries →
    result.frame.EndsAtRecursion
  provisional : ∀ key memo, (key, memo) ∈ s.provisional → memo.frame.EndsAtRecursion

/-- Whether the frames of a tree that enter the call of `key` again all return `ret`; if there are
    any, then `met` holds. -/
def Answered (key : String) (ret : Ty) (met : Bool) (frame : Frame) : Prop :=
  ∀ g, Within g frame → g.origin = .recursive → Cache.keyOf g.site.callee g.args = key →
    g.ret = ret ∧ met = true

/-- What a session has come to since `s`, with the frames made meanwhile: what was pending is
    pending, has not moved, and knows whether it was met; it has answered every frame that
    entered it again. -/
structure Since (s t : Session) (frames : List Frame) : Prop where
  tidy : t.Tidy
  ends : ∀ f ∈ frames, f.EndsAtRecursion
  pending : ∀ key p, s.cache.find? key = some (.pending p) →
    ∃ met, t.cache.find? key = some (.pending { p with reentered := p.reentered || met }) ∧
      ∀ f ∈ frames, Answered key p.ret met f

variable {setting : Setting} {s t u : Session} {frames more : List Frame} {key : String}

theorem Since.refl (tidy : s.Tidy) : Since s s [] where
  tidy := tidy
  ends := by simp
  pending key p found := ⟨false, by simpa using found, by simp⟩

theorem Since.trans (first : Since s t frames) (second : Since t u more) :
    Since s u (more ++ frames) where
  tidy := second.tidy
  ends f member := (List.mem_append.1 member).elim (second.ends f) (first.ends f)
  pending key p found := by
    obtain ⟨met, found, answered⟩ := first.pending key p found
    obtain ⟨met', found, answered'⟩ := second.pending key _ found
    refine ⟨met || met', by simpa [Bool.or_assoc] using found, fun f member => ?_⟩
    intro g within recursive named
    rcases List.mem_append.1 member with new | old
    · obtain ⟨ret, yes⟩ := answered' f new g within recursive named
      exact ⟨ret, by rw [yes, Bool.or_true]⟩
    · obtain ⟨ret, yes⟩ := answered f old g within recursive named
      exact ⟨ret, by rw [yes, Bool.true_or]⟩

/-- The stack and the generation do not matter. -/
theorem Since.of_same (since : Since s t frames) (cache : u.cache = t.cache)
    (provisional : u.provisional = t.provisional) : Since s u frames where
  tidy := ⟨by rw [cache]; exact since.tidy.finished, by
    rw [provisional]; exact since.tidy.provisional⟩
  ends := since.ends
  pending := by rw [cache]; exact since.pending

theorem answered_of_recursionFree {frame : Frame} (free : frame.RecursionFree) (ret : Ty)
    (met : Bool) : Answered key ret met frame :=
  fun g within recursive => absurd recursive (free g within)

theorem recursionFree_of_local {frame : Frame} (made : frame.Local) : frame.RecursionFree := by
  intro g within
  rcases within_iff.1 within with rfl | ⟨c, member, -⟩
  · exact made.origin
  · rw [made.children] at member
    cases member

/-- A frame that enters no call again may be added. -/
theorem Since.add_recursionFree {frame : Frame} (since : Since s t frames)
    (free : frame.RecursionFree) : Since s t (frame :: frames) where
  tidy := since.tidy
  ends f member := by
    rcases List.mem_cons.1 member with rfl | member
    · exact free.ends
    · exact since.ends f member
  pending key p found := by
    obtain ⟨met, found, answered⟩ := since.pending key p found
    refine ⟨met, found, fun f member => ?_⟩
    rcases List.mem_cons.1 member with rfl | member
    · exact answered_of_recursionFree free _ _
    · exact answered f member

/-- The frames of a list may become the children of a frame that enters no call again. -/
theorem Since.parent {frame : Frame} (since : Since s t frame.children)
    (origin : frame.origin ≠ .recursive) : Since s t [frame] where
  tidy := since.tidy
  ends f member := by
    rw [List.mem_singleton] at member
    exact member ▸ ends_of_children origin since.ends
  pending key p found := by
    obtain ⟨met, found, answered⟩ := since.pending key p found
    refine ⟨met, found, fun f member g within recursive => ?_⟩
    rw [List.mem_singleton] at member
    subst member
    rcases within_iff.1 within with rfl | ⟨c, inside, below⟩
    · exact absurd recursive origin
    · exact answered c inside g below recursive

/-- A caller keeps what has come to be since a session if each of its calls does on its own. -/
theorem keptBy_since {call : Caller}
    (calls : ∀ callee args loc t, t.Tidy →
      Leaves (Since t) [] (fun f => [f]) (call callee args { callee := callee, loc := loc } t))
    (s : Session) : KeptBy call (Since s) where
  fewer t fs gs since subset := by
    refine ⟨since.tidy, fun f hf => since.ends f (subset hf), fun key p found => ?_⟩
    obtain ⟨met, found, answered⟩ := since.pending key p found
    exact ⟨met, found, fun f hf => answered f (subset hf)⟩
  made _ _ _ since made := since.add_recursionFree (recursionFree_of_local made)
  called t fs callee args loc since := by
    have left := calls callee args loc t since.tidy
    match call callee args { callee := callee, loc := loc } t, left with
    | (.ok f, u), left => exact since.trans left
    | (.error fault, u), left => exact since.trans left

/-! ## The steps of a call -/

variable {callee : String} {args : List Ty} {site : CallSite} {p : Placeholder}

/-- Whether no call of `key` was pending. -/
def Unowned (s : Session) (key : String) : Prop :=
  ∀ p, s.cache.find? key ≠ some (.pending p)

theorem tidy_of_pending (tidy : t.Tidy)
    (cache : u.cache.entries = t.cache.entries.insert key (.pending p))
    (provisional : u.provisional = t.provisional) : u.Tidy where
  finished other result member := by
    rw [cache] at member
    rcases Assoc.eq_or_mem_of_mem_insert member with here | before
    · cases here
    · exact tidy.finished other result before
  provisional := by
    rw [provisional]
    exact tidy.provisional

theorem tidy_of_begin {depth : Int} (tidy : t.Tidy) (begun : t.cache.begin key depth = .ok u.cache)
    (provisional : u.provisional = t.provisional) : u.Tidy := by
  unfold Cache.begin at begun
  split at begun
  · cases begun
  · exact tidy_of_pending tidy (congrArg Cache.entries (Except.ok.inj begun).symm) provisional

/-- The entry of a key that was not pending may change as long as the session stays tidy. -/
theorem Since.of_unowned (since : Since s t frames) (unowned : Unowned s key) (tidy : u.Tidy)
    (others : ∀ other, key ≠ other → u.cache.find? other = t.cache.find? other) :
    Since s u frames where
  tidy := tidy
  ends := since.ends
  pending other p found := by
    have different : key ≠ other := by
      rintro rfl
      exact unowned p found
    rw [others other different]
    exact since.pending other p found

theorem Since.moved (since : Since s t frames) (unowned : Unowned s key) (p : Placeholder)
    (next : Ty) (history : List Ty) : Since s (t.moved key p next history) frames := by
  refine since.of_unowned unowned (tidy_of_pending since.tidy rfl rfl) fun other different => ?_
  exact (find?_setPlaceholder t.cache key other _).trans (if_neg different)

theorem leaves_liftChecked {α : Type} {known : Session → List Frame → Prop} (checked : Checked α)
    (before : known s frames) : Leaves known frames (fun _ => []) (liftChecked checked s) := by
  cases checked <;> exact before

theorem leaves_enter (tidy : s.Tidy) (unowned : Unowned s key) :
    Leaves (Since s) [] (fun _ => []) (enter callee args site key s) := by
  refine Leaves.bind (fun _ => []) (Since.refl tidy) ?_
  rintro _ _ ⟨⟩ before
  refine Leaves.bind _ (leaves_liftChecked _ before) fun cache t opening _ => ?_
  obtain ⟨begun, rfl⟩ := liftChecked_eq_ok opening
  exact (Since.refl tidy).of_unowned unowned (tidy_of_begin tidy begun rfl) fun other different =>
    (find?_begin begun).trans (if_neg different)

/-- The frame of a call that meets its own pending entry returns what the placeholder does, and
    the placeholder notes that it was met. -/
theorem leaves_reenter (tidy : s.Tidy) (site : CallSite) (args : List Ty)
    (found : s.cache.find? (Cache.keyOf site.callee args) = some (.pending p)) :
    Leaves (Since s) [] (fun f => [f]) (reenter (Cache.keyOf site.callee args) p site args s) := by
  have alone : ∀ f ∈ [{ Frame.start site args .recursive with
        ret := p.ret, status := .resolved }], ∀ g, Within g f →
      g = { Frame.start site args .recursive with ret := p.ret, status := .resolved } := by
    intro f member g within
    rw [List.mem_singleton] at member
    subst member
    rcases within_iff.1 within with here | ⟨c, inside, -⟩
    · exact here
    · cases inside
  refine ⟨tidy_of_pending tidy rfl rfl, fun f member g within _ => ?_, fun other q held => ?_⟩
  · rw [alone f member g within]
    exact ⟨rfl, rfl⟩
  · by_cases same : Cache.keyOf site.callee args = other
    · subst same
      cases found.symm.trans held
      refine ⟨true, ?_, fun f member g within _ _ => ?_⟩
      · rw [Bool.or_true]
        exact (find?_setPlaceholder s.cache _ _ _).trans (if_pos rfl)
      · rw [alone f member g within]
        exact ⟨rfl, rfl⟩
    · refine ⟨false, ?_, fun f member g within _ named => ?_⟩
      · rw [Bool.or_false]
        exact ((find?_setPlaceholder s.cache _ _ _).trans (if_neg same)).trans held
      · rw [alone f member g within] at named
        exact absurd named same

theorem leaves_popOnExit {α : Type} {made : α → List Frame} {inner : Infer α}
    (left : Leaves (Since s) frames made (inner t)) :
    Leaves (Since s) frames made (popOnExit inner t) := by
  unfold popOnExit
  match inner t, left with
  | (.ok x, u), left => exact left.of_same rfl rfl
  | (.error fault, u), left => exact left.of_same rfl rfl

theorem mem_of_mem_discard {cache : Cache} {entry : String × CacheEntry}
    (member : entry ∈ (cache.discard key).entries) : entry ∈ cache.entries := by
  unfold Cache.discard at member
  split at member
  · exact (List.mem_filter.1 member).1
  · exact member

theorem find?_discard_of_ne {cache : Cache} {other : String} (different : key ≠ other) :
    (cache.discard key).find? other = cache.find? other := by
  unfold Cache.discard
  split
  · exact (Assoc.find?_erase cache.entries key other).trans (if_neg different)
  · rfl

theorem eq_or_mem_of_finish {cache next : Cache} {result other : Inferred} {name : String}
    (done : cache.finish key result = .ok next)
    (member : (name, .finished other) ∈ next.entries) :
    other = result ∨ (name, .finished other) ∈ cache.entries := by
  unfold Cache.finish at done
  split at done
  · cases done
  · cases done
    rcases Assoc.eq_or_mem_of_mem_insert member with here | before
    · cases here
      exact Or.inl rfl
    · exact Or.inr before

/-- The result of a call is stored behind the call. -/
theorem leaves_store {frame : Frame} {dependsOn : Option Nat} {converged : Bool}
    (since : Since s t [frame]) (unowned : Unowned s key) :
    Leaves (Since s) [] (fun _ => [frame]) (store key dependsOn frame converged t) := by
  have ends := since.ends frame List.mem_cons_self
  have before : Since s t [] := ⟨since.tidy, by simp, fun other p found => by
    obtain ⟨met, found, -⟩ := since.pending other p found
    exact ⟨met, found, by simp⟩⟩
  refine Leaves.bind (fun _ => []) before ?_
  rintro _ _ ⟨⟩ -
  cases headOf t.stack dependsOn with
  | some head =>
      refine since.of_unowned unowned ⟨fun other result member => ?_, fun other memo member => ?_⟩
        fun other different => find?_discard_of_ne different
      · exact since.tidy.finished other result (mem_of_mem_discard member)
      · rcases Assoc.eq_or_mem_of_mem_insert member with rfl | before
        · exact ends
        · exact since.tidy.provisional other memo before
  | none =>
      refine Leaves.bind _ (leaves_liftChecked _ before) fun cache u sealing _ => ?_
      obtain ⟨finished, rfl⟩ := liftChecked_eq_ok sealing
      refine since.of_unowned unowned ⟨fun other result member => ?_, fun other memo member => ?_⟩
        fun other different => (find?_finish finished).trans (if_neg different)
      · rcases eq_or_mem_of_finish finished member with rfl | before
        · exact ends
        · exact since.tidy.finished other result before
      · exact since.tidy.provisional other memo ((List.mem_filter.1 member).1)

theorem leaves_settle {known : Session → List Frame → Prop} {pass : Infer Frame}
    (passes : ∀ t, known t frames → Leaves known frames Frame.children (pass t))
    (fewer : ∀ t fs gs, known t gs → fs ⊆ gs → known t fs)
    (moved : ∀ t p next history, known t frames → known (t.moved key p next history) frames)
    {left iteration : Nat} {frame : Frame} {t : Session}
    (before : known t (frame.children ++ frames)) :
    Leaves known frames (fun r => r.1.children)
      (settle setting pass key left iteration frame t) := by
  rw [settle_eq]
  split
  · exact before
  · split
    · exact before
    · dsimp only
      split
      · exact before
      · match left with
        | 0 => exact before
        | left + 1 =>
            refine Leaves.bind _ (passes _ (moved t _ _ _ ?_)) fun next u _ after =>
              leaves_settle passes fewer moved after
            exact fewer t _ _ before (List.subset_append_right _ _)

/-! ## Calls -/

/-- The frame of an earlier result enters no call again. -/
theorem since_frameFromCache {source : Frame} (tidy : s.Tidy) (ends : source.EndsAtRecursion)
    (site : CallSite) (args : List Ty) : Since s s [frameFromCache source site args] :=
  (Since.refl tidy).add_recursionFree (recursionFree_frameFromCache ends site args)

theorem leaves_fixpoint {call : Caller} {loc : Location} (kept : KeptBy call (Since s))
    (unowned : Unowned s key) (since : Since s t []) :
    Leaves (Since s) [] (fun r => r.1.children)
      (fixpoint setting (dispatchPass setting call callee args { callee := callee, loc := loc })
        key t) := by
  have passes : ∀ u, Since s u [] → Leaves (Since s) [] Frame.children
      (dispatchPass setting call callee args { callee := callee, loc := loc } u) :=
    fun u since => leaves_dispatchPass kept callee args _ since
  refine Leaves.bind _ (passes t since) fun frame u _ after => ?_
  exact leaves_settle passes kept.fewer (fun u p next history since =>
    since.moved unowned p next history) after

/-- The placeholder of a call that was just entered. -/
theorem pending_of_enter {x : Unit} (entered : enter callee args site key s = (.ok x, t)) :
    t.cache.find? key =
      some (.pending ⟨s.cache.begun, s.stack.length, .bottom, [], false⟩) := by
  obtain ⟨cache, begun, rfl⟩ := enter_eq_ok entered
  exact (find?_begin begun).trans (if_pos rfl)

theorem origin_of_fixpoint {call : Caller} {frame : Frame} {converged : Bool}
    (found : t.cache.find? key = some (.pending p))
    (done : fixpoint setting (dispatchPass setting call callee args site) key t =
      (.ok (frame, converged), u)) : frame.origin ≠ .recursive := by
  obtain ⟨last, earlier, passes, whole, -⟩ := passes_of_fixpoint (pending?_of_find? found) done
  obtain ⟨before, passed⟩ := passes.exists_passed
  have origin : last.frame.origin ≠ .recursive := origin_of_dispatchPass passed
  rw [whole]
  exact origin

/-- A call that is analysed anew. -/
theorem leaves_analysis {room : Nat} {loc : Location}
    (kept : ∀ r, KeptBy (interpret setting room) (Since r)) (tidy : s.Tidy)
    (unowned : Unowned s key) :
    Leaves (Since s) [] (fun f => [f])
      ((do
        enter callee args { callee := callee, loc := loc } key
        let (frame, converged, dependsOn) ← popOnExit do
          let (frame, converged) ← fixpoint setting
            (dispatchPass setting (interpret setting room) callee args
              { callee := callee, loc := loc }) key
          pure (frame, converged, ← topDependency)
        store key dependsOn frame converged
        pure frame) s) := by
  refine Leaves.bind _ (leaves_enter tidy unowned) fun _ t entered since => ?_
  have analysed : Leaves (Since s) [] (fun r : Frame × Bool × Option Nat => [r.1])
      (popOnExit (do
        let (frame, converged) ← fixpoint setting
          (dispatchPass setting (interpret setting room) callee args
            { callee := callee, loc := loc }) key
        pure (frame, converged, ← topDependency)) t) := by
    refine leaves_popOnExit (Leaves.bind _ (leaves_fixpoint (kept s) unowned since) ?_)
    rintro ⟨frame, converged⟩ u ran after
    rw [List.append_nil] at after
    exact after.parent (origin_of_fixpoint (pending_of_enter entered) ran)
  refine Leaves.bind _ analysed fun r u _ after => ?_
  exact Leaves.bind _ (leaves_store after unowned) fun _ v _ after => after

theorem leaves_interpret (setting : Setting) (room : Nat) (callee : String) (args : List Ty)
    (loc : Location) (s : Session) (tidy : s.Tidy) :
    Leaves (Since s) [] (fun f => [f])
      (interpret setting room callee args { callee := callee, loc := loc } s) := by
  have less : ∀ left, room = left + 1 → ∀ r, KeptBy (interpret setting left) (Since r) := by
    intro left _ r
    exact keptBy_since (leaves_interpret setting left) r
  unfold interpret
  refine Leaves.bind (fun _ => []) (Since.refl tidy) ?_
  rintro _ _ ⟨⟩ -
  dsimp only
  generalize widenRecursiveArgs setting s.stack callee args { callee := callee, loc := loc } = args
  cases found : s.cache.find? (Cache.keyOf callee args) with
  | some entry =>
      cases entry with
      | finished result =>
          exact since_frameFromCache tidy (tidy.finished _ _ (Assoc.mem_of_find? found)) _ _
      | pending p => exact leaves_reenter tidy { callee := callee, loc := loc } args found
  | none =>
      dsimp only
      cases reused : (s.provisional.find? (Cache.keyOf callee args)).filter (isCurrent s) with
      | some memo =>
          have stored := Assoc.mem_of_find? (Option.filter_eq_some_iff.1 reused).1
          exact (since_frameFromCache tidy (tidy.provisional _ memo stored) _ _).of_same rfl rfl
      | none =>
          cases room with
          | zero => exact Since.refl tidy
          | succ room =>
              refine leaves_analysis (less room rfl) tidy fun p pending => ?_
              cases found.symm.trans pending

end Inference

end Multimethod
