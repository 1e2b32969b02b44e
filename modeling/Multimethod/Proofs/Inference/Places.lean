import Multimethod.Proofs.Inference.Expansion

/-!
# Calls at other places

A remembered frame is rebuilt at the place where its call is made again. What dispatch itself and the
methods built into the analysis report stands at the call and moves with it; what a body reports
stands in the body and stays. A rebuilt frame is then alike to one that is made at the new place,
unless dispatch has chosen methods of both kinds, whose diagnostics all move: then they still say
the same.
-/

namespace Multimethod

namespace Inference

open Dispatch

/-- Whether dispatch chooses methods of one kind only: built into the analysis, or with bodies. -/
def Unmixed (setting : Setting) (callee : String) (args : List Ty) : Prop :=
  ∀ found, lookup setting.hierarchy setting.table callee args = .matched found →
    found.all Match.isIntrinsic = true ∨ found.any Match.isIntrinsic = false

/-- Whether what a view sees of rebuilt frames belongs where they are rebuilt: it sees no places, or
    dispatch chooses methods of one kind only. -/
def Places (view : View) (setting : Setting) (scope : String → List Ty → Bool) : Prop :=
  (∀ loc loc', view.SamePlace loc loc') ∨
    ∀ callee args, scope callee args = true → Unmixed setting callee args

/-- Whether a frame that is rebuilt at a place is alike to one of the same call. -/
def AlikeAt (view : View) (callee : String) (args : List Ty) (loc : Location) (f g : Frame) : Prop :=
  (frameFromCache f { callee := callee, loc := loc } args).Alike view g

variable {setting : Setting} {scope : String → List Ty → Bool} {view : View}
  {inv : Session → Session → Prop} {call call' : Caller} {callee : String} {args : List Ty}
  {loc loc' : Location} {f g e : Frame} {found : List Match} {body : Body}

theorem relatesReturns_alikeAt : RelatesReturns (AlikeAt view callee args loc) where
  ret _ _ alike := alike.ret
  returning _ _ ret alike := alike.returning ret

/-- Rebuilding a frame keeps what its children report. -/
theorem flatMap_tree_frameFromCache (source : Frame) (site : CallSite) (args : List Ty) :
    (frameFromCache source site args).children.flatMap view.tree =
      source.children.flatMap view.tree := by
  rw [view.flatMap_tree, view.flatMap_tree, ← Frame.collectAllErrors_pruneAll source.children]
  rfl

/-- A rebuilt frame is alike to the original for those who see no places. -/
theorem alike_frameFromCache (placeless : ∀ loc loc', view.SamePlace loc loc') (source : Frame)
    (site : CallSite) (args : List Ty) : (frameFromCache source site args).Alike view source := by
  refine ⟨rfl, rfl, fun _ => ?_, fun _ => flatMap_tree_frameFromCache source site args⟩
  unfold frameFromCache
  dsimp only
  split
  · rw [List.map_map]
    exact List.map_congr_left fun d _ => placeless site.loc d.loc d
  · rfl

/-- Twins are rebuilt alike. -/
theorem AlikeAt.of_twins (twins : f.Twins view e) (alike : AlikeAt view callee args loc e g) :
    AlikeAt view callee args loc f g := by
  have rebuilt : AlikeAt view callee args loc f
      (frameFromCache e { callee := callee, loc := loc } args) := by
    refine ⟨twins.ret, twins.errored, fun seen => ?_, fun seen => ?_⟩
    · unfold frameFromCache
      dsimp only
      rw [twins.origin, twins.status]
      split
      · exact view.map_moved_congr loc (twins.errors seen)
      · exact twins.errors seen
    · rw [flatMap_tree_frameFromCache, flatMap_tree_frameFromCache]
      exact twins.children seen
  exact Frame.Alike.trans rebuilt alike

/-! ## A pass at another place -/

/-- Methods built into the analysis make no calls, and all they report stands at the call. -/
theorem exists_report_of_intrinsic (setting : Setting) (callee : String) (args : List Ty)
    (builtin : found.all Match.isIntrinsic = true) (result : Ty) :
    ∃ ret, ∃ reports : Location → List Diagnostic,
      (∀ loc loc', reports loc' = (reports loc).map fun d => { d with loc := loc' }) ∧
        ∀ call loc body,
          invokeAll setting call { callee := callee, loc := loc } args found result body =
            pure (ret, { body with errors := body.errors ++ reports loc }) := by
  induction found generalizing result with
  | nil =>
      refine ⟨result, fun _ => [], fun _ _ => rfl, fun call loc body => ?_⟩
      rw [List.append_nil]
      rfl
  | cons first rest ih =>
      rw [List.all_cons, Bool.and_eq_true] at builtin
      have invoked : ∃ type, ∃ reports : Location → List Diagnostic,
          (∀ loc loc', reports loc' = (reports loc).map fun d => { d with loc := loc' }) ∧
            ∀ call loc, invoke setting call { callee := callee, loc := loc } first args =
              (do report (reports loc); pure type) := by
        obtain ⟨intrinsic, built⟩ := Option.isSome_iff_exists.1 builtin.1
        unfold invoke
        dsimp only
        rw [built]
        cases intrinsic with
        | construct =>
            have moved := constructInstance_moved setting.hierarchy callee first.method.name args
            exact ⟨_, _, fun loc loc' => congrArg Prod.snd (moved loc loc'), fun call loc => by
              rw [moved default loc]⟩
        | convert =>
            have moved := convertIntrinsic_moved setting.hierarchy callee args
            exact ⟨_, _, fun loc loc' => congrArg Prod.snd (moved loc loc'), fun call loc => by
              rw [moved default loc]⟩
      obtain ⟨type, reports, moved, invoked⟩ := invoked
      obtain ⟨ret, others, moved', further⟩ := ih builtin.2 (Lattice.join setting.hierarchy result type)
      refine ⟨ret, fun loc => reports loc ++ others loc, fun loc loc' => ?_, fun call loc body => ?_⟩
      · rw [List.map_append, ← moved loc loc', ← moved' loc loc']
      · rw [invokeAll, invoked call loc]
        exact (further call loc _).trans (by rw [List.append_assoc])

/-- Methods with bodies do not see where they are called. -/
theorem invokeAll_eq_of_bodies (bodies : found.any Match.isIntrinsic = false) (result : Ty)
    (site site' : CallSite) :
    invokeAll setting call site args found result =
      invokeAll setting call site' args found result := by
  induction found generalizing result with
  | nil => rfl
  | cons first rest ih =>
      rw [List.any_cons, Bool.or_eq_false_iff] at bodies
      have none := Option.not_isSome_iff_eq_none.1 (Bool.not_eq_true _ ▸ bodies.1)
      rw [invokeAll, invokeAll]
      have same : invoke setting call site first args = invoke setting call site' first args := by
        unfold invoke
        dsimp only
        rw [none]
      rw [same]
      congr
      funext type
      exact ih bodies.2 _

/-- A pass at one place, rebuilt at another one, is alike to a pass there. -/
theorem tracks_dispatchPass_at (places : Places view setting scope)
    (calls : CallersAlike view inv call call') (sees : view.sees)
    (inScope : scope callee args = true) (loc loc' : Location) :
    Tracks inv (AlikeAt view callee args loc')
      (dispatchPass setting call callee args { callee := callee, loc := loc })
      (dispatchPass setting call' callee args { callee := callee, loc := loc' }) := by
  rcases places with placeless | unmixed
  · intro s t f g s' t' kept left right
    obtain ⟨twins, kept'⟩ := tracks_dispatchPass setting calls sees callee args
      (placeless loc loc') s t f g s' t' kept left right
    exact ⟨(alike_frameFromCache placeless f _ args).trans twins.toAlike, kept'⟩
  · unfold dispatchPass
    cases answer : lookup setting.hierarchy setting.table callee args with
    | noMethod => exact Tracks.pure ⟨rfl, rfl, fun _ => rfl, fun _ => rfl⟩
    | ambiguous candidates => exact Tracks.pure ⟨rfl, rfl, fun _ => rfl, fun _ => rfl⟩
    | matched found =>
        dsimp only
        cases builtin : found.any Match.isIntrinsic with
        | true =>
            have all := (unmixed callee args inScope found answer).resolve_right
              (by rw [builtin]; exact Bool.noConfusion)
            obtain ⟨ret, reports, moved, runs⟩ :=
              exists_report_of_intrinsic setting callee args all .bottom
            change Tracks inv _ (invokeAll _ _ _ _ _ _ _ >>= _) (invokeAll _ _ _ _ _ _ _ >>= _)
            rw [runs, runs, pure_bind, pure_bind]
            refine Tracks.pure ⟨rfl, rfl, fun _ => ?_, fun _ => rfl⟩
            exact congrArg (List.map view.of) (moved loc loc').symm
        | false =>
            rw [invokeAll_eq_of_bodies builtin .bottom { callee := callee, loc := loc' }
              { callee := callee, loc := loc }]
            refine Tracks.bind (follows_invokeAll calls sees callee (.refl view loc) args found
              .bottom Body.start Body.start (Body.Alike.refl _)) ?_
            rintro ⟨ret, body⟩ ⟨ret', body'⟩ ⟨same, alike⟩
            refine Tracks.pure ⟨same, rfl, alike.errors, fun seen => ?_⟩
            rw [flatMap_tree_frameFromCache]
            exact alike.children seen

/-- Expansions of one call at different places are alike. -/
theorem tracks_expand_at (places : Places view setting scope) (sees : view.sees)
    (room room' : Nat) (path path' : List Opened) (callee : String) (args : List Ty)
    (loc loc' : Location) :
    Tracks inv (AlikeAt view callee args loc')
      (expand setting scope room path callee args { callee := callee, loc := loc })
      (expand setting scope room' path' callee args { callee := callee, loc := loc' }) := by
  intro s t f g s' t' kept left right
  obtain ⟨room, _, _, rfl, -, inScope, rfl, passes⟩ := expand_eq_ok left
  obtain ⟨room', _, _, rfl, -, -, rfl, passes'⟩ := expand_eq_ok right
  have calls : CallersAlike view (PendingAlike (Cache.keyOf callee args))
      (callsOf ⟨callee, args, loc⟩ path (expand setting scope room (⟨callee, args, loc⟩ :: path)))
      (callsOf ⟨callee, args, loc'⟩ path'
        (expand setting scope room' (⟨callee, args, loc'⟩ :: path'))) :=
    callersAlike_callsOf ⟨callee, args, loc⟩ ⟨callee, args, loc'⟩ rfl rfl
      (tracks_expand sees room room' _ _)
  exact ⟨(tracks_fixpoint relatesReturns_alikeAt (movable_pendingAlike _)
    (tracks_dispatchPass_at places calls sees inScope loc loc') _ _ _ _ _ _
    (pendingAlike_alone _) passes passes').1, kept⟩

/-- Whether a frame that is remembered of a call is, wherever it is rebuilt, alike to the expansions
    of the call at that place. -/
def Reflects (view : View) (setting : Setting) (scope : String → List Ty → Bool) (callee : String)
    (args : List Ty) (frame : Frame) : Prop :=
  ∀ room path loc s s' g,
    expand setting scope room path callee args { callee := callee, loc := loc } s = (.ok g, s') →
      AlikeAt view callee args loc frame g

/-- A frame is remembered well if it is the twin of some expansion. -/
theorem reflects_of_twins (places : Places view setting scope) (sees : view.sees) {room : Nat}
    {path : List Opened} {s s' : Session}
    (expanded : expand setting scope room path callee args { callee := callee, loc := loc } s =
      (.ok e, s')) (twins : f.Twins view e) : Reflects view setting scope callee args f := by
  intro room' path' loc' t t' g expanded'
  have tracks : Tracks (fun _ _ => True) (AlikeAt view callee args loc')
      (expand setting scope room path callee args { callee := callee, loc := loc })
      (expand setting scope room' path' callee args { callee := callee, loc := loc' }) :=
    tracks_expand_at places sees room room' path path' callee args loc loc'
  exact .of_twins twins (tracks s t e g s' t' trivial expanded expanded').1

end Inference

end Multimethod
