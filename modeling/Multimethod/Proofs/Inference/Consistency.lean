import Multimethod.Proofs.Inference.Reached
import Multimethod.Proofs.Lattice.Widening

/-!
# A fixpoint is consistent

From pass to pass, the placeholder of a call moves up strictly. When the passes come to rest, the
call returns at least what its last pass returned, and this is what every frame of that pass
returns that entered the call again.
-/

namespace Multimethod.Inference

open Multimethod.Frame Multimethod.Lattice

/-- One pass over a dispatch case, with `room` more frames allowed on the stack. -/
def passOver (setting : Setting) (room : Nat) (callee : String) (args : List Ty)
    (loc : Location) : Infer Frame :=
  dispatchPass setting (interpret setting room) callee args { callee := callee, loc := loc }

variable {setting : Setting} {room : Nat} {callee : String} {args : List Ty} {loc : Location}
  {key : String} {p q : Placeholder} {s t u : Session} {frame : Frame} {rounds : List Round}

/-- Where a placeholder moves to lies above what it returned and above what the pass returned. -/
theorem nextReturn_above (ordered : Hierarchy.Ordered setting.hierarchy.decls)
    (typesGround : setting.hierarchy.TypesGround) {ret next : Ty} {history : List Ty}
    {iteration : Nat} (known : p.ret.ground setting.hierarchy = true)
    (earlier : ∀ t ∈ p.history, t.ground setting.hierarchy = true)
    (returned : ret.ground setting.hierarchy = true)
    (moves : nextReturn setting p ret iteration = (next, history)) :
    Above setting.hierarchy p.ret ret next ∧
      ∀ t ∈ history, t.ground setting.hierarchy = true := by
  unfold nextReturn at moves
  dsimp only at moves
  obtain ⟨rfl, rfl⟩ := Prod.mk.inj moves
  have ground := ground_join known returned
  obtain ⟨left, right⟩ := isSubtype_join ordered known returned
  have whole : ∀ t ∈ p.history ++ [join setting.hierarchy p.ret ret],
      t.ground setting.hierarchy = true := by
    intro t member
    rcases List.mem_append.1 member with before | new
    · exact earlier t before
    · rw [List.mem_singleton.1 new]
      exact ground
  refine ⟨?_, whole⟩
  split
  case isFalse => exact ⟨ground, left, right⟩
  case isTrue =>
      obtain ⟨widened, above⟩ := isSubtype_widen ordered typesGround whole
        setting.options.wideningThreshold
      have upper := above _ (List.mem_append_right _ List.mem_cons_self)
      exact ⟨widened, isSubtype_trans ordered known ground widened left upper,
        isSubtype_trans ordered returned ground widened right upper⟩

/-- A session behind a pass that gave the frame of `last`, in which `p` is the placeholder. -/
structure Steady (setting : Setting) (key : String) (t : Session) (last : Round)
    (p : Placeholder) : Prop where
  tidy : t.Tidy
  found : t.cache.find? key = some (.pending p)
  value : p.ret = last.value
  ground : p.ret.ground setting.hierarchy = true
  history : ∀ t ∈ p.history, t.ground setting.hierarchy = true
  origin : last.frame.origin ≠ .recursive
  answered : ∀ c ∈ last.frame.children, Answered key p.ret p.reentered c

/-- A pass that begins with an unmet placeholder. -/
theorem steady_of_passed (tidy : s.Tidy) (found : s.cache.find? key = some (.pending q))
    (unmet : q.reentered = false) (ground : q.ret.ground setting.hierarchy = true)
    (history : ∀ t ∈ q.history, t.ground setting.hierarchy = true)
    (passed : passOver setting room callee args loc s = (.ok frame, t)) :
    ∃ p, Steady setting key t ⟨q.ret, frame⟩ p := by
  have left : Leaves (Since s) [] Frame.children (passOver setting room callee args loc s) :=
    leaves_dispatchPass (keptBy_since (leaves_interpret setting room) s) callee args _
      (Since.refl tidy)
  rw [passed] at left
  obtain ⟨met, found, answered⟩ := left.pending key q found
  rw [unmet, Bool.false_or] at found
  exact ⟨_, left.tidy, found, rfl, ground, history, origin_of_dispatchPass passed,
    fun c member => answered c (List.mem_append_left _ member)⟩

/-- Whether the placeholder moved up between two passes. -/
def MovesUp (h : Hierarchy) (later before : Round) : Prop :=
  isSubtype h before.value later.value = true ∧ before.value.id ≠ later.value.id

/-- Behind each pass the placeholder returns what it did before, and it has moved up from pass to
    pass. -/
theorem steady_of_passes (ordered : Hierarchy.Ordered setting.hierarchy.decls)
    (typesGround : setting.hierarchy.TypesGround) (tidy : s.Tidy)
    (found : s.cache.find? key = some (.pending q)) (unmet : q.reentered = false)
    (ground : q.ret.ground setting.hierarchy = true)
    (history : ∀ t ∈ q.history, t.ground setting.hierarchy = true)
    (passes : Passes setting (passOver setting room callee args loc) key s rounds t)
    (returned : ∀ r ∈ rounds, r.frame.ret.ground setting.hierarchy = true) :
    rounds.IsChain (MovesUp setting.hierarchy) ∧
      ∀ last ∈ rounds.head?, ∃ p, Steady setting key t last p := by
  induction passes with
  | first pending passed =>
      cases (pending?_of_find? found).symm.trans pending
      refine ⟨.singleton _, ?_⟩
      rintro _ ⟨⟩
      exact steady_of_passed tidy found unmet ground history passed
  | @again p last earlier next recorded _ t u _ pending met moves different passed ih =>
      obtain ⟨rising, steady⟩ := ih fun r member => returned r (List.mem_cons_of_mem _ member)
      obtain ⟨held, steady⟩ := steady last rfl
      cases (pending?_of_find? steady.found).symm.trans pending
      obtain ⟨above, history⟩ := nextReturn_above ordered typesGround steady.ground
        steady.history (returned last (List.mem_cons_of_mem _ List.mem_cons_self)) moves
      refine ⟨.cons_cons ⟨steady.value ▸ above.left, fun same => ?_⟩ rising, ?_⟩
      · rw [Ty.same, steady.value, ← same] at different
        simp at different
      · rintro _ ⟨⟩
        have here : (t.moved key p next recorded).cache.find? key =
            some (.pending { p with ret := next, history := recorded, reentered := false }) :=
          (find?_setPlaceholder t.cache key key _).trans (if_pos rfl)
        have tidy : (t.moved key p next recorded).Tidy := tidy_of_pending steady.tidy rfl rfl
        exact steady_of_passed tidy here rfl above.ground history passed

/-- When the passes over a call come to rest, its placeholder has moved up strictly from pass to
    pass, the call returns at least what its last pass returned, and every frame of its tree that
    entered it again returns exactly what it returns itself. -/
theorem fixpoint_consistent (built : setting.hierarchy.Declared)
    (typesGround : setting.hierarchy.TypesGround) (reached : Reached setting s) {x : Unit}
    (entered : enter callee args { callee := callee, loc := loc } (Cache.keyOf callee args) s =
      (.ok x, t))
    (wellFormed : ∀ rounds u,
      Passes setting (passOver setting room callee args loc) (Cache.keyOf callee args) t rounds u →
        ∀ r ∈ rounds, r.frame.ret.ground setting.hierarchy = true)
    (rests : fixpoint setting (passOver setting room callee args loc) (Cache.keyOf callee args) t =
      (.ok (frame, true), u)) :
    ∃ last earlier,
      Passes setting (passOver setting room callee args loc) (Cache.keyOf callee args) t
        (last :: earlier) u ∧
      frame = last.frame.returning frame.ret ∧
      (last :: earlier).IsChain (MovesUp setting.hierarchy) ∧
      isSubtype setting.hierarchy last.frame.ret frame.ret = true ∧
      ∀ g, Within g frame → g.origin = .recursive → g.site.callee = callee →
        sameTypes g.args args = true → g.ret = frame.ret := by
  have ordered := built.ordered
  have found := pending_of_enter entered
  obtain ⟨last, earlier, passes, whole, ended⟩ :=
    passes_of_fixpoint (pending?_of_find? found) rests
  have returned := wellFormed _ _ passes
  obtain ⟨rising, steady⟩ := steady_of_passes ordered typesGround
    (tidy_enter reached.tidy entered) found rfl (Ty.ground_bottom _) (by simp) passes returned
  obtain ⟨p, steady⟩ := steady last rfl
  have lastGround := returned last List.mem_cons_self
  -- a frame that enters the call again stands below a child of the last pass
  have answered : ∀ g, Within g frame → g.origin = .recursive → g.site.callee = callee →
      sameTypes g.args args = true → g.ret = p.ret ∧ p.reentered = true := by
    intro g within recursive function types
    have named : Cache.keyOf g.site.callee g.args = Cache.keyOf callee args := by
      rw [sameTypes, beq_iff_eq] at types
      rw [Cache.keyOf, Cache.keyOf, function, types]
    rw [whole] at within
    rcases within_iff.1 within with rfl | ⟨c, member, below⟩
    · exact absurd recursive steady.origin
    · exact steady.answered c member g below recursive named
  refine ⟨last, earlier, passes, whole, rising, ?_⟩
  clear whole
  generalize frame.ret = ret at ended ⊢
  cases ended rfl with
  | gone absent =>
      rw [pending?_of_find? steady.found] at absent
      cases absent
  | quiet pending unmet =>
      cases (pending?_of_find? steady.found).symm.trans pending
      refine ⟨isSubtype_refl _ _, fun g within recursive function types => ?_⟩
      have met := (answered g within recursive function types).2
      rw [unmet] at met
      cases met
  | stable pending moves same =>
      cases (pending?_of_find? steady.found).symm.trans pending
      obtain ⟨above, -⟩ := nextReturn_above ordered typesGround steady.ground steady.history
        lastGround moves
      refine ⟨above.right, fun g within recursive function types => ?_⟩
      rw [(answered g within recursive function types).1]
      exact ((Ty.same_iff_of_ground above.ground steady.ground).1 same).symm

/-! ## A call that comes back to itself -/

/-- Whether the passes over a call come to rest, behind the one with the given outcome, within
    `left` more, and all of them return well-formed types. -/
def restsGround (setting : Setting) (pass : Infer Frame) (key : String) :
    (left count : Nat) → Except Fault Frame × Session → Bool
  | left, count, (.ok frame, t) =>
      frame.ret.ground setting.hierarchy &&
        match t.cache.pending? key with
        | none => true
        | some p =>
            !p.reentered ||
              let (next, history) := nextReturn setting p frame.ret count
              next.same p.ret ||
                match left with
                | 0 => false
                | left + 1 =>
                    restsGround setting pass key left (count + 1)
                      (pass (t.moved key p next history))
  | _, _, (.error _, _) => true

theorem restsGround_of_passes {pass : Infer Frame} {left : Nat}
    (ground : restsGround setting pass key left 1 (pass s) = true)
    (passes : Passes setting pass key s rounds t) :
    (∀ r ∈ rounds, r.frame.ret.ground setting.hierarchy = true) ∧
      ∀ last ∈ rounds.head?, ∃ left,
        restsGround setting pass key left rounds.length (.ok last.frame, t) = true := by
  have head : ∀ left count frame t,
      restsGround setting pass key left count (.ok frame, t) = true →
        frame.ret.ground setting.hierarchy = true := by
    intro left count frame t holds
    rw [restsGround, Bool.and_eq_true] at holds
    exact holds.1
  induction passes with
  | first pending passed =>
      rw [passed] at ground
      refine ⟨fun r member => ?_, ?_⟩
      · rw [List.mem_singleton.1 member]
        exact head _ _ _ _ ground
      · rintro _ ⟨⟩
        exact ⟨left, ground⟩
  | @again p last earlier next history frame t u before pending met moves different passed ih =>
      obtain ⟨returned, further⟩ := ih
      obtain ⟨left, holds⟩ := further last rfl
      have rest : ∃ left', left = left' + 1 ∧
          restsGround setting pass key left' (earlier.length + 2) (.ok frame, u) = true := by
        rw [restsGround, Bool.and_eq_true] at holds
        have repeated := holds.2
        simp only [pending, met, List.length_cons, moves, different, Bool.not_true,
          Bool.false_or] at repeated
        cases left with
        | zero => cases repeated
        | succ left => exact ⟨left, rfl, passed ▸ repeated⟩
      obtain ⟨left', -, holds⟩ := rest
      refine ⟨fun r member => ?_, ?_⟩
      · rcases List.mem_cons.1 member with rfl | member
        · exact head _ _ _ _ holds
        · exact returned r member
      · rintro _ ⟨⟩
        exact ⟨left', holds⟩

/-- `f` calls `g`, which calls `f` with the same argument, and then returns its argument. -/
def roundTrip : Setting where
  hierarchy := numberHierarchy
  table := .ofMethods
    [⟨"f", [⟨"n", .int⟩], [], none,
      some [.expr (.call "g" [.name "n" default] default) default,
        .ret (some (.name "n" default)) default], none, default⟩,
     ⟨"g", [⟨"n", .int⟩], [], none,
      some [.ret (some (.call "f" [.name "n" default] default)) default], none, default⟩]
  globals := globalEnvironment []
  options := {}

/-- The frames in the third generation of a tree that enter a call again: which call, and what
    they return. -/
def recursions (frame : Frame) : List (String × String) :=
  ((frame.children.flatMap Frame.children).filter fun g => g.origin == .recursive).map
    fun g => (Cache.keyOf g.site.callee g.args, g.ret.id)

/-- The outcome of a computation that must not fail. -/
def succeeds {α : Type} (check : α → Bool) : Except Fault α × Session → Bool
  | (.ok x, _) => check x
  | (.error _, _) => false

theorem exists_of_succeeds {α : Type} {check : α → Bool} {outcome : Except Fault α × Session}
    (holds : succeeds check outcome = true) : ∃ x t, outcome = (.ok x, t) ∧ check x = true := by
  match outcome with
  | (.ok x, t) => exact ⟨x, t, rfl, holds⟩
  | (.error _, _) => cases holds

/-- In its second pass `f` meets itself below `g`, with the type that the first pass returned. -/
theorem fixpoint_consistent_roundTrip :
    let pass := passOver roundTrip 5 "f" [.int] default
    let key := Cache.keyOf "f" [.int]
    ∃ t frame u last earlier,
      enter "f" [.int] { callee := "f", loc := default } key (Session.start {}) = (.ok (), t) ∧
      fixpoint roundTrip pass key t = (.ok (frame, true), u) ∧
      recursions frame = [("f(Int)", "Int")] ∧
      earlier ≠ [] ∧
      Passes roundTrip pass key t (last :: earlier) u ∧
      frame = last.frame.returning frame.ret ∧
      (last :: earlier).IsChain (MovesUp numberHierarchy) ∧
      isSubtype numberHierarchy last.frame.ret frame.ret = true ∧
      ∀ g, Within g frame → g.origin = .recursive → g.site.callee = "f" →
        sameTypes g.args [.int] = true → g.ret = frame.ret := by
  intro pass key
  let before := Session.start roundTrip.options
  let behind := (enter "f" [.int] { callee := "f", loc := default } key before).2
  have entered : enter "f" [.int] { callee := "f", loc := default } key before = (.ok (), behind) :=
    rfl
  obtain ⟨⟨frame, converged⟩, u, rests, found⟩ := exists_of_succeeds
    (show succeeds (fun r : Frame × Bool => r.2 && recursions r.1 == [("f(Int)", "Int")])
      (fixpoint roundTrip pass key behind) = true by decide +kernel)
  simp only [Bool.and_eq_true, beq_iff_eq] at found
  obtain ⟨rfl, found⟩ := found
  have ground : restsGround roundTrip pass key 1 1 (pass behind) = true := by decide +kernel
  obtain ⟨last, earlier, consistent⟩ := fixpoint_consistent numberHierarchy_declared
    (Hierarchy.typesGround_of_decls (by decide +kernel)) .start entered
    (fun rounds u passes => (restsGround_of_passes ground passes).1) rests
  refine ⟨behind, frame, u, last, earlier, entered, rests, found, ?_, consistent⟩
  -- in the first pass `f` met itself with nothing returned yet
  rintro rfl
  obtain ⟨passes, whole, -⟩ := consistent
  cases passes with
  | first _ passed =>
      obtain ⟨first, _, same, nothing⟩ := exists_of_succeeds
        (show succeeds (fun f => recursions f == [("f(Int)", "Bottom")]) (pass behind) = true by
          decide +kernel)
      cases passed.symm.trans same
      rw [beq_iff_eq] at nothing
      rw [whole] at found
      exact absurd (nothing.symm.trans found) (by decide)

end Multimethod.Inference
