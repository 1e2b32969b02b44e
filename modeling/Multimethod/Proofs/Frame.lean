import Multimethod.Frame

/-!
# What a call tree reports

Pruning keeps the diagnostics of a tree, in their order. Two frames are alike when a caller
cannot tell them apart and what is seen of the diagnostics of their trees is the same. A call that
dispatch rejects has a frame that stands for nothing else.
-/

namespace Multimethod

/-- What a diagnostic says, without its place. -/
def Diagnostic.record (d : Diagnostic) : DiagnosticKind × String × String :=
  (d.kind, d.message, d.call)

namespace Frame

/-- The frames of a tree. -/
inductive Within : Frame → Frame → Prop where
  | self (f : Frame) : Within f f
  | child {g c f : Frame} (member : c ∈ f.children) (below : Within g c) : Within g f

theorem within_iff {g f : Frame} : Within g f ↔ g = f ∨ ∃ c ∈ f.children, Within g c := by
  constructor
  · intro within
    cases within with
    | self => exact Or.inl rfl
    | child member below => exact Or.inr ⟨_, member, below⟩
  · rintro (rfl | ⟨c, member, below⟩)
    · exact .self g
    · exact .child member below

/-- What the diagnostics of a tree say, in order. -/
def records (frame : Frame) : List (DiagnosticKind × String × String) :=
  frame.collectErrors.map Diagnostic.record

theorem collectErrors_eq (frame : Frame) :
    frame.collectErrors = frame.errors ++ collectAllErrors frame.children := by
  cases frame
  rw [collectErrors]

theorem collectAllErrors_eq_flatMap (frames : List Frame) :
    collectAllErrors frames = frames.flatMap collectErrors := by
  induction frames with
  | nil => rw [collectAllErrors, List.flatMap_nil]
  | cons frame frames ih => rw [collectAllErrors, List.flatMap_cons, ih]

theorem records_eq (frame : Frame) :
    frame.records = frame.errors.map Diagnostic.record ++ frame.children.flatMap records := by
  rw [records, collectErrors_eq, List.map_append, collectAllErrors_eq_flatMap, List.map_flatMap]
  rfl

mutual

/-- A tree without a diagnostic is one that collects none. -/
theorem hasErrors_eq_false (frame : Frame) :
    frame.hasErrors = false → frame.collectErrors = [] := by
  match frame with
  | ⟨site, args, ret, status, origin, errors, children⟩ =>
      simp only [hasErrors, collectErrors, Bool.or_eq_false_iff, Bool.not_eq_false',
        List.isEmpty_iff]
      rintro ⟨nothing, none⟩
      rw [nothing, someHasErrors_eq_false children none, List.append_nil]

theorem someHasErrors_eq_false (frames : List Frame) :
    someHasErrors frames = false → collectAllErrors frames = [] := by
  match frames with
  | [] => simp [collectAllErrors]
  | frame :: frames =>
      simp only [someHasErrors, collectAllErrors, Bool.or_eq_false_iff]
      rintro ⟨first, rest⟩
      rw [hasErrors_eq_false frame first, someHasErrors_eq_false frames rest, List.append_nil]

end

mutual

/-- Pruning loses no diagnostic. -/
theorem collectErrors_prune (frame : Frame) :
    frame.prune.collectErrors = frame.collectErrors := by
  match frame with
  | ⟨site, args, ret, status, origin, errors, children⟩ =>
      rw [prune, collectErrors, collectErrors, collectAllErrors_pruneAll children]

theorem collectAllErrors_pruneAll (frames : List Frame) :
    collectAllErrors (pruneAll frames) = collectAllErrors frames := by
  match frames with
  | [] => rw [pruneAll]
  | frame :: frames =>
      rw [pruneAll, collectAllErrors]
      cases kept : frame.hasErrors with
      | true =>
          rw [if_pos rfl, collectAllErrors, collectErrors_prune frame,
            collectAllErrors_pruneAll frames]
      | false =>
          rw [if_neg Bool.false_ne_true, hasErrors_eq_false frame kept,
            collectAllErrors_pruneAll frames, List.nil_append]

end

end Frame

/-! ## Rejected calls -/

/-- Whether a diagnostic tells that dispatch rejected a call. -/
def Diagnostic.IsDispatch (d : Diagnostic) : Prop :=
  d.kind = .noMatchingMethod ∨ d.kind = .ambiguousMethod

namespace Frame

/-- Whether a frame stands for a call that dispatch rejected, and for nothing else. The call that
    the diagnostic shows is that of the frame as far as `worded` holds. -/
structure Rejected (worded : Prop) (frame : Frame) (d : Diagnostic) : Prop where
  alone : frame.errors = [d]
  status : frame.status = .errored
  children : frame.children = []
  ret : frame.ret = if d.kind = .noMatchingMethod then .bottom else .any
  loc : d.loc = frame.site.loc
  call : worded → d.call = frame.site.render frame.args

/-- Whether a frame is one of a finished call below an entry call. -/
structure Settled (worded : Prop) (frame : Frame) : Prop where
  ended : frame.status = .resolved ∨ frame.status = .errored
  inner : frame.origin ≠ .entry
  rejected : ∀ d ∈ frame.errors, d.IsDispatch → frame.Rejected worded d

/-- Whether all frames of a tree are settled. -/
def AllSettled (worded : Prop) (frame : Frame) : Prop :=
  ∀ g, Within g frame → g.Settled worded

variable {worded : Prop} {frame : Frame} {d : Diagnostic}

theorem Rejected.imp {fewer : Prop} (rejected : frame.Rejected worded d)
    (imp : fewer → worded) : frame.Rejected fewer d :=
  { rejected with call := fun told => rejected.call (imp told) }

theorem Settled.imp {fewer : Prop} (settled : frame.Settled worded) (imp : fewer → worded) :
    frame.Settled fewer :=
  { settled with rejected := fun d member dispatch => (settled.rejected d member dispatch).imp imp }

theorem allSettled_iff : frame.AllSettled worded ↔
    frame.Settled worded ∧ ∀ c ∈ frame.children, c.AllSettled worded := by
  constructor
  · exact fun all => ⟨all frame (.self _), fun c member g within => all g (.child member within)⟩
  · rintro ⟨here, below⟩ g within
    rcases within_iff.1 within with rfl | ⟨c, member, further⟩
    · exact here
    · exact below c member g further

/-- A frame without children is settled with all of its tree. -/
theorem Settled.alone (settled : frame.Settled worded) (childless : frame.children = []) :
    frame.AllSettled worded :=
  allSettled_iff.2 ⟨settled, by simp [childless]⟩

/-- A frame is settled whatever it returns, if its diagnostics do not come of dispatch. -/
theorem settled_of_noDispatch (ended : frame.status = .resolved ∨ frame.status = .errored)
    (inner : frame.origin ≠ .entry) (none : ∀ d ∈ frame.errors, ¬ d.IsDispatch) :
    frame.Settled worded :=
  ⟨ended, inner, fun d member dispatch => absurd dispatch (none d member)⟩

mutual

theorem AllSettled.prune (frame : Frame) (all : frame.AllSettled worded) :
    frame.prune.AllSettled worded := by
  match frame with
  | ⟨site, args, ret, status, origin, errors, children⟩ =>
      obtain ⟨here, below⟩ := allSettled_iff.1 all
      rw [Frame.prune]
      refine allSettled_iff.2 ⟨⟨here.ended, here.inner, fun d member dispatch => ?_⟩,
        AllSettled.pruneAll children below⟩
      have rejected := here.rejected d member dispatch
      have childless : children = [] := rejected.children
      exact { rejected with children := by rw [childless, Frame.pruneAll] }

theorem AllSettled.pruneAll (frames : List Frame) (all : ∀ f ∈ frames, f.AllSettled worded) :
    ∀ f ∈ Frame.pruneAll frames, f.AllSettled worded := by
  match frames with
  | [] => simp [Frame.pruneAll]
  | frame :: frames =>
      rw [List.forall_mem_cons] at all
      have rest := AllSettled.pruneAll frames all.2
      rw [Frame.pruneAll]
      split
      · exact List.forall_mem_cons.2 ⟨AllSettled.prune frame all.1, rest⟩
      · exact rest

end

end Frame

/-! ## Views -/

/-- What two analyses are compared by: something of each diagnostic or, if that is not seen either,
    only what decides how an analysis goes on. -/
structure View where
  Seen : Type
  of : Diagnostic → Seen
  /-- Moving two diagnostics to one place does not tell them apart. -/
  moved : ∀ d d' loc, of d = of d' → of { d with loc := loc } = of { d' with loc := loc }
  sees : Prop

namespace View

/-- Sees what diagnostics say, without their places. -/
def records : View := ⟨_, Diagnostic.record, fun _ _ _ same => same, True⟩

/-- Sees diagnostics with their places. -/
def located : View := ⟨_, fun d => d, fun _ _ _ same => by rw [same], True⟩

/-- Sees no diagnostics. -/
def blind : View := ⟨Unit, fun _ => (), fun _ _ _ _ => rfl, False⟩

/-- What is seen of the diagnostics of a tree, in order. -/
def tree (view : View) (frame : Frame) : List view.Seen :=
  frame.collectErrors.map view.of

theorem tree_eq (view : View) (frame : Frame) :
    view.tree frame = frame.errors.map view.of ++ frame.children.flatMap view.tree := by
  rw [tree, Frame.collectErrors_eq, List.map_append, Frame.collectAllErrors_eq_flatMap,
    List.map_flatMap]
  rfl

theorem flatMap_tree (view : View) (frames : List Frame) :
    frames.flatMap view.tree = (Frame.collectAllErrors frames).map view.of := by
  rw [Frame.collectAllErrors_eq_flatMap, List.map_flatMap]
  rfl

theorem map_moved_congr (view : View) (loc : Location) {errors errors' : List Diagnostic}
    (same : errors.map view.of = errors'.map view.of) :
    (errors.map fun d => { d with loc := loc }).map view.of =
      (errors'.map fun d => { d with loc := loc }).map view.of := by
  induction errors generalizing errors' with
  | nil =>
      rw [List.map_nil, eq_comm, List.map_eq_nil_iff] at same
      rw [same]
  | cons d errors ih =>
      cases errors' with
      | nil => cases same
      | cons d' errors' =>
          rw [List.map_cons, List.map_cons, List.cons.injEq] at same
          rw [List.map_cons, List.map_cons, List.map_cons, List.map_cons,
            view.moved d d' loc same.1, ih same.2]

/-- Whether a view does not tell apart what is reported at two places. -/
def SamePlace (view : View) (loc loc' : Location) : Prop :=
  ∀ d : Diagnostic, view.of { d with loc := loc } = view.of { d with loc := loc' }

variable {view : View} {loc loc' : Location}

theorem SamePlace.refl (view : View) (loc : Location) : view.SamePlace loc loc :=
  fun _ => rfl

theorem samePlace_records (loc loc' : Location) : records.SamePlace loc loc' :=
  fun _ => rfl

/-- Diagnostics that are reported at one place and at another one. -/
theorem SamePlace.map_moved (same : view.SamePlace loc loc') {report : Location → List Diagnostic}
    (moved : ∀ loc loc', report loc' = (report loc).map fun d => { d with loc := loc' }) :
    (report loc).map view.of = (report loc').map view.of := by
  rw [moved loc loc, moved loc loc', List.map_map, List.map_map]
  exact List.map_congr_left fun d _ => same d

end View

namespace Frame

variable {view : View} {f g k : Frame}

/-- Frames that return the same, are both rejected by dispatch or both not, and report the same as
    far as a view sees. -/
structure Alike (view : View) (f g : Frame) : Prop where
  ret : f.ret = g.ret
  errored : (f.status == .errored) = (g.status == .errored)
  errors : view.sees → f.errors.map view.of = g.errors.map view.of
  children : view.sees → f.children.flatMap view.tree = g.children.flatMap view.tree

theorem Alike.trans (first : Alike view f g) (second : Alike view g k) : Alike view f k :=
  ⟨first.ret.trans second.ret, first.errored.trans second.errored,
    fun seen => (first.errors seen).trans (second.errors seen),
    fun seen => (first.children seen).trans (second.children seen)⟩

theorem Alike.symm (alike : Alike view f g) : Alike view g f :=
  ⟨alike.ret.symm, alike.errored.symm, fun seen => (alike.errors seen).symm,
    fun seen => (alike.children seen).symm⟩

theorem Alike.tree (alike : Alike view f g) (seen : view.sees) : view.tree f = view.tree g := by
  rw [view.tree_eq, view.tree_eq g, alike.errors seen, alike.children seen]

theorem Alike.records (alike : Alike .records f g) : f.records = g.records :=
  alike.tree trivial

/-- What a frame returns is not part of what its tree reports. -/
theorem Alike.returning (alike : Alike view f g) (ret : Ty) :
    Alike view { f with ret := ret } { g with ret := ret } :=
  ⟨rfl, alike.errored, alike.errors, alike.children⟩

/-- Frames that are alike and come of one dispatch. -/
structure Twins (view : View) (f g : Frame) : Prop extends Alike view f g where
  status : f.status = g.status
  origin : f.origin = g.origin

end Frame

end Multimethod
