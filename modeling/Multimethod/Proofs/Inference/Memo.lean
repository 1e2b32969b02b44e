import Multimethod.Proofs.Assoc
import Multimethod.Proofs.Inference.Places

/-!
# Remembered results

While open calls are entered again by their own bodies only, the session is a memo table of
expansions: what it has finished is what the call expands to, and no call depends on another one
that is still open. Every call is then answered as its expansion says. The calls that are open
around such a call may be of any kind, as long as it does not repeat one of them.
-/

namespace Multimethod.Inference

open Dispatch Multimethod.Lattice

/-- Whether a call has an expansion, wherever it is made. -/
def Expandable (setting : Setting) (scope : String → List Ty → Bool) (callee : String)
    (args : List Ty) : Prop :=
  ∃ room path loc s g s',
    expand setting scope room path callee args { callee := callee, loc := loc } s = (.ok g, s')

/-- The calls on a stack. -/
def openedOf (stack : List Active) : List Opened :=
  stack.map fun a => { callee := a.callee, args := a.args, loc := a.loc }

/-- Whether a session remembers of calls what they expand to. What depends on an open call has no
    expansion. -/
structure Recalls (view : View) (setting : Setting) (scope : String → List Ty → Bool)
    (s : Session) : Prop where
  finished : ∀ callee args result, scope callee args = true →
    s.cache.find? (Cache.keyOf callee args) = some (.finished result) →
      Reflects view setting scope callee args result.frame
  shelved : ∀ callee args memo, scope callee args = true →
    s.provisional.find? (Cache.keyOf callee args) = some memo →
      ¬Expandable setting scope callee args

/-- A session that remembers of calls what they expand to, and in which only calls on the stack are
    pending. -/
structure Truthful (view : View) (setting : Setting) (scope : String → List Ty → Bool)
    (s : Session) : Prop extends Recalls view setting scope s where
  pending : ∀ key p, s.cache.find? key = some (.pending p) → ∃ o ∈ openedOf s.stack, o.key = key

/-- Answers the calls of the innermost one of the opened calls `path`, or calls from outside if there
    is none. -/
def callerOf (setting : Setting) (scope : String → List Ty → Bool) (room : Nat)
    (outside : List Opened) : List Opened → Caller
  | [] => expand setting scope room outside
  | own :: outer =>
      callsOf own (outer ++ outside) (expand setting scope room (own :: (outer ++ outside)))

/-- Whether a session and that of the expansion know as much of the innermost opened call, and
    the session has left the other ones alone since. -/
def InStep (held : String → Option CacheEntry) (s t : Session) (outside : List Opened) :
    List Opened → Prop
  | [] => True
  | own :: outer =>
      PendingAlike own.key s t ∧
        (∀ p, s.cache.find? own.key = some (.pending p) → p.depth = (outer ++ outside).length) ∧
          ∀ o ∈ outer, o.key ≠ own.key ∧ s.cache.find? o.key = held o.key

/-- A truthful session that is analysing the calls `path`, none of which depends on another one,
    beside the session of the expansion of the innermost one. When that one was entered, the entries
    of the others were those in `held`. The calls `outside` are open around them. -/
structure Faithful (view : View) (setting : Setting) (scope : String → List Ty → Bool)
    (outside path : List Opened) (held : String → Option CacheEntry) (s t : Session) : Prop
    extends Truthful view setting scope s where
  opened : openedOf s.stack = path ++ outside
  independent : ∀ a ∈ s.stack.take path.length, a.dependsOn = none
  inStep : InStep held s t outside path

variable {view : View} {setting : Setting} {scope : String → List Ty → Bool}
  {outside path outer : List Opened} {own : Opened} {held : String → Option CacheEntry}
  {callee : String} {args : List Ty} {loc : Location} {s s' t t' : Session}

theorem truthful_start (view : View) (setting : Setting) (scope : String → List Ty → Bool) :
    Truthful view setting scope (Session.start setting.options) where
  finished := by simp [Session.start, Cache.empty, Cache.find?]
  shelved := by simp [Session.start]
  pending := by simp [Session.start, Cache.empty, Cache.find?]

/-- A truthful session is faithful to expansions of calls that are made in it. -/
theorem Truthful.faithful (truthful : Truthful view setting scope s)
    (held : String → Option CacheEntry) (t : Session) :
    Faithful view setting scope (openedOf s.stack) [] held s t where
  toTruthful := truthful
  opened := rfl
  independent := by simp
  inStep := trivial

theorem Faithful.length_stack (faithful : Faithful view setting scope outside path held s t) :
    s.stack.length = (path ++ outside).length := by
  rw [← faithful.opened, openedOf, List.length_map]

/-! ## The steps of a call -/

/-- Arguments are widened only against other types that the function had at the same place. -/
theorem widenRecursiveArgs_of_same
    (same : ∀ a ∈ s.stack, a.callee = callee → a.loc = loc → sameTypes a.args args = true) :
    widenRecursiveArgs setting s.stack callee args { callee := callee, loc := loc } = args := by
  unfold widenRecursiveArgs
  dsimp only
  rw [if_pos]
  rw [List.all_eq_true]
  intro a member
  simp only [List.mem_reverse, List.mem_filter, Bool.and_eq_true, beq_iff_eq] at member
  exact same a member.1 member.2.1 member.2.2

theorem isRepeated_eq_false {o : Opened} (regular : isRepeated path o = false) :
    ∀ a ∈ path, ¬(a.callee = o.callee ∧ a.loc = o.loc) ∧ a.key ≠ o.key := by
  intro a member
  rw [isRepeated, List.any_eq_false] at regular
  have apart := regular a member
  simp only [Bool.or_eq_true, Bool.and_eq_true, beq_iff_eq, not_or] at apart
  exact apart

theorem widenRecursiveArgs_of_not_repeated (opened : openedOf s.stack = path)
    (regular : isRepeated path ⟨callee, args, loc⟩ = false) :
    widenRecursiveArgs setting s.stack callee args { callee := callee, loc := loc } = args := by
  refine widenRecursiveArgs_of_same fun a member function place => ?_
  have opening : (⟨a.callee, a.args, a.loc⟩ : Opened) ∈ path := by
    rw [← opened]
    exact List.mem_map_of_mem member
  exact absurd ⟨function, place⟩ (isRepeated_eq_false regular _ opening).1

/-- The innermost frame does not depend on itself. -/
theorem dependOn_of_length_le {stack : List Active} {depth : Nat}
    (innermost : stack.length ≤ depth + 1) : dependOn stack depth = stack := by
  cases stack with
  | nil => rfl
  | cons top rest => rw [dependOn, if_neg (Nat.not_lt.2 (Nat.le_of_succ_le_succ innermost))]

theorem find?_begin {cache next : Cache} {key other : String} {depth : Int}
    (begun : cache.begin key depth = .ok next) :
    next.find? other =
      if key = other then some (.pending ⟨cache.begun, depth, .bottom, [], false⟩)
      else cache.find? other := by
  unfold Cache.begin at begun
  split at begun
  · cases begun
  · cases begun
    exact Assoc.find?_insert cache.entries key other _

theorem find?_finish {cache next : Cache} {key other : String} {result : Inferred}
    (done : cache.finish key result = .ok next) :
    next.find? other =
      if key = other then some (.finished result) else cache.find? other := by
  unfold Cache.finish at done
  split at done
  · cases done
  · cases done
    exact Assoc.find?_insert cache.entries key other _

theorem liftChecked_eq_ok {α : Type} {checked : Checked α} {x : α}
    (done : liftChecked checked s = (.ok x, s')) : checked = .ok x ∧ s' = s := by
  cases checked with
  | error fault => cases done
  | ok value =>
      cases done
      exact ⟨rfl, rfl⟩

/-- The result and the session of a computation behind which a call was closed. -/
theorem popOnExit_eq_ok {α : Type} {inner : Infer α} {x : α}
    (done : popOnExit inner s = (.ok x, s')) :
    ∃ r, inner s = (.ok x, r) ∧ s' = { r with stack := r.stack.tail } := by
  unfold popOnExit at done
  cases ran : inner s with
  | mk result r =>
      rw [ran] at done
      cases done
      exact ⟨r, rfl, rfl⟩

theorem enter_eq_ok {site : CallSite} {key : String} {u : Unit}
    (entered : enter callee args site key s = (.ok u, s')) :
    ∃ cache, s.cache.begin key s.stack.length = .ok cache ∧
      s' = { s with
        cache := cache
        stack := ⟨callee, site.loc, args, key, s.cache.begun, none⟩ :: s.stack } := by
  obtain ⟨_, _, got, entered⟩ := bind_eq_ok entered
  cases got
  obtain ⟨cache, _, opening, stored⟩ := bind_eq_ok entered
  obtain ⟨begun, rfl⟩ := liftChecked_eq_ok opening
  cases stored
  exact ⟨cache, begun, rfl⟩

/-- A result that depends on nothing is finished. -/
theorem store_eq_ok {key : String} {frame : Frame} {converged : Bool} {u : Unit}
    (stored : store key none frame converged s = (.ok u, s')) :
    ∃ cache, s.cache.finish key ⟨frame, converged⟩ = .ok cache ∧
      s' = { s with cache := cache, provisional := s.provisional.erase key } := by
  obtain ⟨_, _, got, stored⟩ := bind_eq_ok stored
  cases got
  obtain ⟨cache, _, sealing, stored⟩ := bind_eq_ok stored
  obtain ⟨finished, rfl⟩ := liftChecked_eq_ok sealing
  cases stored
  exact ⟨cache, finished, rfl⟩

/-! ## Faithful sessions -/

/-- Entering a call opens it in front of the others. -/
theorem faithful_enter {u : Unit} (faithful : Faithful view setting scope outside path held s t)
    (regular : isRepeated (path ++ outside) ⟨callee, args, loc⟩ = false)
    (entered : enter callee args { callee := callee, loc := loc } (Cache.keyOf callee args) s =
      (.ok u, s')) :
    Faithful view setting scope outside (⟨callee, args, loc⟩ :: path) s.cache.find? s'
      (Session.alone (Cache.keyOf callee args)) := by
  obtain ⟨cache, begun, rfl⟩ := enter_eq_ok entered
  refine ⟨⟨⟨?_, faithful.shelved⟩, ?_⟩, ?_, ?_, ?_, ?_, ?_⟩
  · intro other types result plain found
    rw [find?_begin begun] at found
    split at found
    · cases found
    · exact faithful.finished other types result plain found
  · intro other p found
    rw [find?_begin begun] at found
    split at found
    · rename_i same
      exact ⟨_, List.mem_cons_self, same⟩
    · obtain ⟨o, member, owner⟩ := faithful.pending other p found
      exact ⟨o, List.mem_cons_of_mem _ member, owner⟩
  · exact congrArg _ faithful.opened
  · intro a member
    rcases List.mem_cons.1 member with rfl | member
    · rfl
    · exact faithful.independent a member
  · exact ⟨_, _, (find?_begin begun).trans (if_pos rfl), find?_alone _, rfl, rfl, rfl⟩
  · intro p found
    cases ((find?_begin begun).trans (if_pos rfl)).symm.trans found
    exact congrArg _ faithful.length_stack
  · intro o member
    have different := (isRepeated_eq_false regular o (List.mem_append_left _ member)).2
    exact ⟨different, (find?_begin begun).trans (if_neg (Ne.symm different))⟩

/-- What is known of the innermost call may change, as long as the expansion follows. -/
theorem faithful_setPlaceholder {p q : Placeholder}
    (faithful : Faithful view setting scope outside (own :: outer) held s t)
    (stack : s'.stack = s.stack) (provisional : s'.provisional = s.provisional)
    (set : s'.cache = s.cache.setPlaceholder own.key p)
    (set' : t'.cache = t.cache.setPlaceholder own.key q)
    (depth : p.depth = (outer ++ outside).length)
    (same : p.ret = q.ret ∧ p.history = q.history ∧ p.reentered = q.reentered) :
    Faithful view setting scope outside (own :: outer) held s' t' := by
  obtain ⟨-, -, others⟩ := faithful.inStep
  have found : ∀ key, s'.cache.find? key =
      if own.key = key then some (.pending p) else s.cache.find? key := by
    intro key
    rw [set, find?_setPlaceholder]
  refine ⟨⟨⟨?_, ?_⟩, ?_⟩, ?_, ?_, ⟨p, q, ?_, ?_, same⟩, ?_, ?_⟩
  · intro callee args result plain entry
    rw [found] at entry
    split at entry
    · cases entry
    · exact faithful.finished callee args result plain entry
  · rw [provisional]
    exact faithful.shelved
  · intro key r entry
    rw [stack]
    rw [found] at entry
    split at entry
    · rename_i same
      rw [faithful.opened]
      exact ⟨own, List.mem_cons_self, same⟩
    · exact faithful.pending key r entry
  · rw [stack, faithful.opened]
  · rw [stack]
    exact faithful.independent
  · rw [found, if_pos rfl]
  · rw [set', find?_setPlaceholder, if_pos rfl]
  · intro r entry
    rw [found, if_pos rfl] at entry
    cases entry
    exact depth
  · intro o member
    obtain ⟨different, unchanged⟩ := others o member
    exact ⟨different, by rw [found, if_neg (Ne.symm different), unchanged]⟩

theorem movable_faithful :
    Movable (Faithful view setting scope outside (own :: outer) held) own.key where
  paired _ _ faithful := faithful.inStep.1
  moved _ _ p _ _ _ faithful found _ :=
    faithful_setPlaceholder faithful rfl rfl rfl rfl (faithful.inStep.2.1 p found)
      ⟨rfl, rfl, rfl⟩

/-- What a session finishes of a call is remembered of the call. -/
theorem Recalls.finish (apart : KeysApart scope) {cache : Cache} {result : Inferred}
    (recalls : Recalls view setting scope s)
    (plain : scope callee args = true)
    (reflects : Reflects view setting scope callee args result.frame)
    (finished : s.cache.finish (Cache.keyOf callee args) result = .ok cache) :
    Recalls view setting scope
      { s with cache := cache, provisional := s.provisional.erase (Cache.keyOf callee args) } := by
  refine ⟨?_, ?_⟩
  · intro other types result plain' found
    rw [find?_finish finished] at found
    split at found
    · rename_i same
      obtain ⟨rfl, rfl⟩ := apart _ _ _ _ plain plain' same
      cases found
      exact reflects
    · exact recalls.finished other types result plain' found
  · intro other types memo plain' found
    rw [Assoc.find?_erase] at found
    split at found
    · cases found
    · exact recalls.shelved other types memo plain' found

/-- Storing what a call expands to closes the call. -/
theorem faithful_store (apart : KeysApart scope) {frame : Frame} {converged : Bool} {u : Unit}
    {r : Session} (before : Faithful view setting scope outside path held s t)
    (faithful : Faithful view setting scope outside (⟨callee, args, loc⟩ :: path) s.cache.find? r t')
    (plain : scope callee args = true) (reflects : Reflects view setting scope callee args frame)
    (stored : store (Cache.keyOf callee args) none frame converged
      { r with stack := r.stack.tail } = (.ok u, s')) :
    Faithful view setting scope outside path held s' t := by
  obtain ⟨cache, finished, rfl⟩ := store_eq_ok stored
  have popped : Recalls view setting scope { r with stack := r.stack.tail } :=
    ⟨faithful.finished, faithful.shelved⟩
  have recalls := popped.finish apart plain reflects finished
  have below : openedOf r.stack.tail = path ++ outside := by
    rw [openedOf, List.map_tail]
    exact congrArg List.tail faithful.opened
  have unchanged : ∀ o ∈ path, cache.find? o.key = s.cache.find? o.key := by
    intro o member
    obtain ⟨different, unchanged⟩ := faithful.inStep.2.2 o member
    exact (find?_finish finished).trans ((if_neg (Ne.symm different)).trans unchanged)
  refine ⟨⟨recalls, ?_⟩, below, ?_, ?_⟩
  · intro other p found
    rw [find?_finish finished] at found
    split at found
    · cases found
    · rename_i different
      obtain ⟨o, member, owner⟩ := faithful.pending other p found
      rw [faithful.opened] at member
      rcases List.mem_cons.1 member with rfl | member
      · exact absurd owner different
      · exact ⟨o, below ▸ member, owner⟩
  · intro a member
    refine faithful.independent a ?_
    cases stack : r.stack with
    | nil =>
        rw [stack] at member
        cases path <;> cases member
    | cons top rest =>
        rw [stack] at member
        exact List.mem_cons_of_mem _ member
  · match path with
    | [] => trivial
    | own :: outer =>
        obtain ⟨paired, depth, others⟩ := before.inStep
        have here := unchanged own List.mem_cons_self
        refine ⟨?_, ?_, ?_⟩
        · rw [PendingAlike, here]
          exact paired
        · rw [here]
          exact depth
        · intro o member
          rw [unchanged o (List.mem_cons_of_mem _ member)]
          exact others o member

/-! ## Calls -/

/-- A call that is analysed anew gives what it expands to, given this for the calls it makes. -/
theorem tracks_analysis (apart : KeysApart scope) (places : Places view setting scope)
    (sees : view.sees) {room room' : Nat}
    (calls : CallersAlike view
      (Faithful view setting scope outside (⟨callee, args, loc⟩ :: path) s.cache.find?)
      (interpret setting room)
      (callerOf setting scope room' outside (⟨callee, args, loc⟩ :: path)))
    (faithful : Faithful view setting scope outside path held s t)
    (regular : isRepeated (path ++ outside) ⟨callee, args, loc⟩ = false)
    (plain : scope callee args = true) {frame expansion : Frame}
    (expanded : expand setting scope (room' + 1) (path ++ outside) callee args
      { callee := callee, loc := loc } t = (.ok expansion, t'))
    (done : (do
      enter callee args { callee := callee, loc := loc } (Cache.keyOf callee args)
      let (frame, converged, dependsOn) ← popOnExit do
        let (frame, converged) ← fixpoint setting
          (dispatchPass setting (interpret setting room) callee args
            { callee := callee, loc := loc })
          (Cache.keyOf callee args)
        pure (frame, converged, ← topDependency)
      store (Cache.keyOf callee args) dependsOn frame converged
      pure frame) s = (.ok frame, s')) :
    frame.Alike view expansion ∧ Faithful view setting scope outside path held s' t' := by
  obtain ⟨_, _, _, same, -, -, rfl, passes'⟩ := expand_eq_ok expanded
  cases same
  obtain ⟨_, _, entered, done⟩ := bind_eq_ok done
  obtain ⟨⟨frame, converged, dependsOn⟩, _, popped, done⟩ := bind_eq_ok done
  obtain ⟨_, _, stored, done⟩ := bind_eq_ok done
  cases done
  obtain ⟨r, analysed, rfl⟩ := popOnExit_eq_ok popped
  obtain ⟨⟨_, _⟩, _, passes, rest⟩ := bind_eq_ok analysed
  obtain ⟨_, _, top, rest⟩ := bind_eq_ok rest
  cases rest
  cases top
  obtain ⟨twins, kept⟩ := tracks_fixpoint (relatesReturns_twins view) movable_faithful
    (tracks_dispatchPass setting calls sees callee args (.refl view loc)) _ _ _ _ _ _
    (faithful_enter faithful regular entered) passes passes'
  have nothing : r.stack.head?.bind (·.dependsOn) = none := by
    cases stack : r.stack with
    | nil => rfl
    | cons a rest => exact kept.independent a (stack ▸ List.mem_cons_self)
  rw [nothing] at stored
  exact ⟨twins.toAlike,
    faithful_store apart faithful kept plain (reflects_of_twins places sees expanded twins) stored⟩

/-- A call that meets its own pending entry is answered with what is known of it. -/
theorem alike_reenter (faithful : Faithful view setting scope outside (own :: outer) held s t)
    (self : own.isSelf callee args = true)
    (regular : isRepeated (outer ++ outside) ⟨callee, args, loc⟩ = false) {room : Nat}
    {frame expansion : Frame}
    (done : interpret setting room callee args { callee := callee, loc := loc } s =
      (.ok frame, s'))
    (recurs : recur own.key { callee := callee, loc := loc } args t = (.ok expansion, t')) :
    frame.Alike view expansion ∧
      Faithful view setting scope outside (own :: outer) held s' t' := by
  obtain ⟨p, q, found, found', ret, history, -⟩ := faithful.inStep.1
  have depth := faithful.inStep.2.1 p found
  have key := key_eq_of_isSelf self
  have types : sameTypes own.args args = true := by
    simp only [Opened.isSelf, Bool.and_eq_true] at self
    exact self.2
  have unwidened : widenRecursiveArgs setting s.stack callee args
      { callee := callee, loc := loc } = args := by
    refine widenRecursiveArgs_of_same fun a member function place => ?_
    have opening : (⟨a.callee, a.args, a.loc⟩ : Opened) ∈ own :: (outer ++ outside) := by
      rw [← List.cons_append, ← faithful.opened]
      exact List.mem_map_of_mem member
    rcases List.mem_cons.1 opening with rfl | opening
    · exact types
    · exact absurd ⟨function, place⟩ (isRepeated_eq_false regular _ opening).1
  unfold interpret at done
  obtain ⟨_, _, got, done⟩ := bind_eq_ok done
  cases got
  rw [unwidened] at done
  dsimp only at done
  rw [← key, found] at done
  obtain ⟨_, _, got, recurs⟩ := bind_eq_ok recurs
  cases got
  rw [pending?_of_find? found'] at recurs
  cases done
  cases recurs
  refine ⟨⟨ret, rfl, fun _ => rfl, fun _ => rfl⟩, ?_⟩
  refine faithful_setPlaceholder faithful (dependOn_of_length_le ?_) rfl rfl rfl depth
    ⟨ret, history, rfl⟩
  rw [faithful.length_stack, depth]
  exact Nat.le_refl _

/-- A faithful session answers a call as the call expands, given this for less room. -/
theorem tracks_interpret_of_less (apart : KeysApart scope) (places : Places view setting scope)
    (sees : view.sees) {room : Nat}
    (less : ∀ left, room = left + 1 → ∀ room' path held,
      CallersAlike view (Faithful view setting scope outside path held) (interpret setting left)
        (callerOf setting scope room' outside path))
    (faithful : Faithful view setting scope outside path held s t) {room' : Nat}
    {frame expansion : Frame}
    (done : interpret setting room callee args { callee := callee, loc := loc } s =
      (.ok frame, s'))
    (expanded : expand setting scope room' (path ++ outside) callee args
      { callee := callee, loc := loc } t = (.ok expansion, t')) :
    frame.Alike view expansion ∧ Faithful view setting scope outside path held s' t' := by
  obtain ⟨left, _, _, rfl, regular, plain, rfl, -⟩ := expand_eq_ok expanded
  unfold interpret at done
  obtain ⟨_, _, got, done⟩ := bind_eq_ok done
  cases got
  rw [widenRecursiveArgs_of_not_repeated faithful.opened regular] at done
  dsimp only at done
  generalize found : s.cache.find? (Cache.keyOf callee args) = entry at done
  match entry with
  | some (.finished result) =>
      cases done
      have reflects := faithful.finished callee args result plain found
      exact ⟨reflects _ _ _ _ _ _ expanded, faithful⟩
  | some (.pending p) =>
      -- the call would have to be open already
      obtain ⟨o, member, same⟩ := faithful.pending _ p found
      rw [faithful.opened] at member
      exact absurd same (isRepeated_eq_false regular o member).2
  | none =>
      have unshelved : s.provisional.find? (Cache.keyOf callee args) = none := by
        cases shelved : s.provisional.find? (Cache.keyOf callee args) with
        | none => rfl
        | some memo =>
            exact absurd ⟨_, _, _, _, _, _, expanded⟩
              (faithful.shelved callee args memo plain shelved)
      dsimp only at done
      rw [unshelved] at done
      match room with
      | 0 => cases done
      | room + 1 =>
          exact tracks_analysis apart places sees (less room rfl left _ _) faithful regular plain
            expanded done

theorem tracks_interpret (apart : KeysApart scope) (places : Places view setting scope)
    (sees : view.sees) (room room' : Nat) (outside path : List Opened)
    (held : String → Option CacheEntry) :
    CallersAlike view (Faithful view setting scope outside path held) (interpret setting room)
      (callerOf setting scope room' outside path) := by
  have less : ∀ left, room = left + 1 → ∀ room' path held,
      CallersAlike view (Faithful view setting scope outside path held) (interpret setting left)
        (callerOf setting scope room' outside path) := by
    intro left _ room' path held
    exact tracks_interpret apart places sees left room' outside path held
  intro callee args loc s t frame expansion s' t' faithful done expanded
  match path with
  | [] => exact tracks_interpret_of_less apart places sees less faithful done expanded
  | own :: outer =>
      rcases callsOf_eq_ok expanded with ⟨self, regular, recurs⟩ | ⟨-, expanded⟩
      · exact alike_reenter faithful self regular done recurs
      · exact tracks_interpret_of_less apart places sees less faithful done expanded

end Multimethod.Inference
