import Multimethod.Inference.Run
import Multimethod.Proofs.Inference.Fixpoint
import Multimethod.Proofs.Inference.Keys
import Multimethod.Proofs.Ty.Ground

/-!
# Expanding calls without a cache

The plain meaning of a call: every call that a body makes is analysed on the spot, as often as
it is made, and knows nothing of the calls around it. A body may call itself with the same
types again; its passes are then repeated until what it returns is at rest. Any other way back
into an open call has no expansion. The expansion of a call does not depend on the place of the
call or on the calls that are open, as long as it exists.
-/

namespace Multimethod

namespace Inference

/-- Whether the keys of the calls in `scope` tell them apart. -/
def KeysApart (scope : String → List Ty → Bool) : Prop :=
  ∀ callee args callee' args', scope callee args = true → scope callee' args' = true →
    Cache.keyOf callee args = Cache.keyOf callee' args' → callee = callee' ∧ args = args'

/-- A call that is being expanded. -/
structure Opened where
  callee : String
  args : List Ty
  loc : Location

/-- The key of an opened call. -/
def Opened.key (o : Opened) : String := Cache.keyOf o.callee o.args

/-- Whether an opened call stands at the same place and calls the same function, or has the
    same key. -/
def isRepeated (path : List Opened) (o : Opened) : Bool :=
  path.any fun a => a.callee == o.callee && a.loc == o.loc || a.key == o.key

/-- Whether an opened call is made again, with the same types. -/
def Opened.isSelf (own : Opened) (callee : String) (args : List Ty) : Bool :=
  own.callee == callee && sameTypes own.args args

/-- The session of a call that knows nothing but that it is pending itself. -/
def Session.alone (key : String) : Session :=
  ⟨⟨0, [(key, .pending ⟨0, 0, .bottom, [], false⟩)], 0, 0⟩, [], [], 0⟩

/-- Runs the analysis of a call in a session of its own. -/
def isolated {α : Type} (key : String) (inner : Infer α) : Infer α := fun s =>
  ((inner (Session.alone key)).1, s)

/-- The frame of a call that a body makes of itself. -/
def recur (key : String) (site : CallSite) (args : List Ty) : Infer Frame := do
  match (← get).cache.pending? key with
  | some placeholder => reenter key placeholder site args
  | none => pure (Frame.start site args .recursive)

/-- Answers the calls that the body of `own` makes; those of `own` itself with what is known of
    it so far, unless they stand where an outer call of the same function stands. -/
def callsOf (own : Opened) (outer : List Opened) (other : Caller) : Caller :=
  fun callee args site =>
    if own.isSelf callee args then
      if isRepeated outer ⟨callee, args, site.loc⟩ then other callee args site
      else recur own.key site args
    else other callee args site

/-- Analyses a call together with all calls it makes. A call that is in `scope` has an
    expansion if it does not repeat an opened one. -/
def expand (setting : Setting) (scope : String → List Ty → Bool) :
    (room : Nat) → (path : List Opened) → Caller
  | 0, _, _, _, _ => throw (.limit .callDepth setting.options.maxCallDepth)
  | room + 1, path, callee, args, site =>
      let own : Opened := ⟨callee, args, site.loc⟩
      if isRepeated path own || !scope callee args then
        throw (.limit .callDepth setting.options.maxCallDepth)
      else
        isolated own.key do
          let calls := callsOf own path (expand setting scope room (own :: path))
          let (frame, _) ← fixpoint setting (dispatchPass setting calls callee args site) own.key
          pure frame

/-- Whether `frame` is an expansion of a call at `loc`, on its own. -/
def Expands (setting : Setting) (scope : String → List Ty → Bool) (callee : String)
    (args : List Ty) (loc : Location) (frame : Frame) : Prop :=
  ∃ room s s', expand setting scope room [] callee args { callee := callee, loc := loc } s =
    (.ok frame, s')

/-- Whether a call has an expansion of at most `room` nested calls. -/
def hasExpansion (setting : Setting) (scope : String → List Ty → Bool) (room : Nat)
    (callee : String) (args : List Ty) (loc : Location) : Bool :=
  match (expand setting scope room [] callee args { callee := callee, loc := loc }
    (Session.start setting.options)).1 with
  | .ok _ => true
  | .error _ => false

theorem exists_expands_of_hasExpansion {setting : Setting} {scope : String → List Ty → Bool}
    {room : Nat} {callee : String} {args : List Ty} {loc : Location}
    (expanded : hasExpansion setting scope room callee args loc = true) :
    ∃ frame, Expands setting scope callee args loc frame := by
  unfold hasExpansion at expanded
  split at expanded
  · rename_i frame result
    exact ⟨frame, room, _, _, Prod.ext result rfl⟩
  · cases expanded

variable {setting : Setting} {scope : String → List Ty → Bool}
  {view : View} {inv : Session → Session → Prop} {callee : String} {args : List Ty}
  {path path' : List Opened} {s s' : Session}

/-- What an expansion comes to: the call is in scope and does not repeat an opened one, and its
    frame is that of the passes over the dispatch case. -/
theorem expand_eq_ok {room : Nat} {site : CallSite} {frame : Frame}
    (done : expand setting scope room path callee args site s = (.ok frame, s')) :
    let own : Opened := ⟨callee, args, site.loc⟩
    ∃ left converged r, room = left + 1 ∧ isRepeated path own = false ∧
      scope callee args = true ∧ s' = s ∧
      fixpoint setting
        (dispatchPass setting (callsOf own path (expand setting scope left (own :: path)))
          callee args site) own.key (Session.alone own.key) = (.ok (frame, converged), r) := by
  cases room with
  | zero => cases done
  | succ left =>
      rw [expand] at done
      dsimp only at done
      split at done
      · cases done
      · rename_i regular
        simp only [Bool.or_eq_true, Bool.not_eq_true', not_or, Bool.not_eq_true,
          Bool.not_eq_false] at regular
        obtain ⟨result, unchanged⟩ := Prod.mk.inj done
        obtain ⟨⟨_, converged⟩, r, passes, finished⟩ := bind_eq_ok (Prod.ext result rfl)
        cases finished
        exact ⟨left, converged, _, rfl, regular.1, regular.2, unchanged.symm, passes⟩

/-! ## Two expansions of a call -/

theorem key_eq_of_isSelf {own : Opened} (self : own.isSelf callee args = true) :
    own.key = Cache.keyOf callee args := by
  simp only [Opened.isSelf, sameTypes, Bool.and_eq_true, beq_iff_eq] at self
  rw [Opened.key, Cache.keyOf, Cache.keyOf, self.1, self.2]

theorem find?_alone (key : String) :
    (Session.alone key).cache.find? key = some (.pending ⟨0, 0, .bottom, [], false⟩) := by
  simp [Session.alone, Cache.find?, Assoc.find?]

theorem pendingAlike_alone (key : String) :
    PendingAlike key (Session.alone key) (Session.alone key) :=
  ⟨_, _, find?_alone key, find?_alone key, rfl, rfl, rfl⟩

theorem movable_pendingAlike (key : String) : Movable (PendingAlike key) key where
  paired _ _ kept := kept
  moved s t p q next history _ _ _ := by
    refine ⟨{ p with ret := next, history := history, reentered := false },
      { q with ret := next, history := history, reentered := false }, ?_, ?_, rfl, rfl, rfl⟩
    · simp [Session.moved, find?_setPlaceholder]
    · simp [Session.moved, find?_setPlaceholder]

/-- A call of the body of `own` is a direct call of itself, or expanded. -/
theorem callsOf_eq_ok {own : Opened} {outer : List Opened} {room : Nat} {site : CallSite}
    {frame : Frame}
    (done : callsOf own outer (expand setting scope room (own :: outer)) callee args site s =
      (.ok frame, s')) :
    own.isSelf callee args = true ∧ isRepeated outer ⟨callee, args, site.loc⟩ = false ∧
        recur own.key site args s = (.ok frame, s') ∨
      own.isSelf callee args = false ∧
        expand setting scope room (own :: outer) callee args site s = (.ok frame, s') := by
  unfold callsOf at done
  split at done
  · rename_i self
    split at done
    · obtain ⟨_, _, _, -, regular, -⟩ := expand_eq_ok done
      have same : own.key = Opened.key ⟨callee, args, site.loc⟩ := key_eq_of_isSelf self
      simp [isRepeated, same] at regular
    · rename_i regular
      exact Or.inl ⟨self, Bool.not_eq_true _ ▸ regular, done⟩
  · rename_i other
    exact Or.inr ⟨Bool.not_eq_true _ ▸ other, done⟩

theorem tracks_recur (key : String) (site site' : CallSite) (args args' : List Ty) :
    Tracks (PendingAlike key) (Frame.Alike view) (recur key site args) (recur key site' args') := by
  rintro s t f g s' t' ⟨p, q, found, found', ret, history, reentered⟩ left right
  obtain ⟨_, _, got, left⟩ := bind_eq_ok left
  obtain ⟨_, _, got', right⟩ := bind_eq_ok right
  cases got
  cases got'
  rw [pending?_of_find? found] at left
  rw [pending?_of_find? found'] at right
  cases left
  cases right
  refine ⟨⟨ret, rfl, fun _ => rfl, fun _ => rfl⟩, { p with reentered := true },
    { q with reentered := true }, ?_, ?_, ret, history, rfl⟩
  · simp [find?_setPlaceholder]
  · simp [find?_setPlaceholder]

/-- Two ways to answer the calls of one body are alike if they expand other calls alike. -/
theorem callersAlike_callsOf {room room' : Nat} (own own' : Opened)
    (same : own.callee = own'.callee) (types : own.args = own'.args)
    (other : CallersAlike view (PendingAlike own.key) (expand setting scope room (own :: path))
      (expand setting scope room' (own' :: path'))) :
    CallersAlike view (PendingAlike own.key)
      (callsOf own path (expand setting scope room (own :: path)))
      (callsOf own' path' (expand setting scope room' (own' :: path'))) := by
  have self : ∀ callee args, own'.isSelf callee args = own.isSelf callee args := by
    intro callee args
    rw [Opened.isSelf, Opened.isSelf, same, types]
  have key : own'.key = own.key := by rw [Opened.key, Opened.key, same, types]
  intro callee args loc s t f g s' t' kept left right
  rcases callsOf_eq_ok left with ⟨itself, -, left⟩ | ⟨further, left⟩ <;>
    rcases callsOf_eq_ok right with ⟨itself', -, right⟩ | ⟨further', right⟩
  · rw [key] at right
    exact tracks_recur _ _ _ _ _ s t f g s' t' kept left right
  · rw [self, itself] at further'
    cases further'
  · rw [self, further] at itself'
    cases itself'
  · exact other callee args loc s t f g s' t' kept left right

/-- Expansions of one call behind different opened calls are alike. -/
theorem tracks_expand (sees : view.sees) (room room' : Nat) (path path' : List Opened) :
    CallersAlike view inv (expand setting scope room path) (expand setting scope room' path') := by
  induction room generalizing inv room' path path' with
  | zero =>
      intro callee args loc s t f g s' t' _ left
      cases left
  | succ room ih =>
      intro callee args loc s t f g s' t' kept left right
      obtain ⟨_, _, _, same, -, -, rfl, passes⟩ := expand_eq_ok left
      cases same
      obtain ⟨room', _, _, -, -, -, rfl, passes'⟩ := expand_eq_ok right
      refine ⟨?_, kept⟩
      have calls := callersAlike_callsOf ⟨callee, args, loc⟩ ⟨callee, args, loc⟩ rfl rfl
        (ih room' (⟨callee, args, loc⟩ :: path) (⟨callee, args, loc⟩ :: path'))
      exact (tracks_fixpoint (relatesReturns_twins view) (movable_pendingAlike _)
        (tracks_dispatchPass setting calls sees callee args (.refl view loc)) _ _ _ _ _ _
        (pendingAlike_alone _) passes passes').1.toAlike

/-! ## Keys -/

/-- Whether a call has a key of its own: its types are well-formed and mention no variable, and
    the name of the function opens no argument list. -/
def isPlainCall (h : Hierarchy) (callee : String) (args : List Ty) : Bool :=
  !callee.toList.contains '(' && Ty.allGround h args

/-- Plain calls with one key are the same call. -/
theorem keysApart_isPlainCall (h : Hierarchy) : KeysApart (isPlainCall h) := by
  intro callee args callee' args' plain plain' same
  simp only [isPlainCall, Bool.and_eq_true, Bool.not_eq_true', List.contains_eq_mem,
    decide_eq_false_iff_not] at plain plain'
  exact call_eq_of_keyOf_eq plain.1 plain'.1 (Ty.allReadable_of_allGround plain.2)
    (Ty.allReadable_of_allGround plain'.2) same

end Inference

end Multimethod
