import Multimethod.Inference.Interpret
import Multimethod.Proofs.Inference.Lockstep

/-!
# Repeating a pass

The passes over a call are repeated while its placeholder moves. Sessions that agree on the
placeholder repeat passes that are alike equally often, and come to rest with frames that are
alike.
-/

namespace Multimethod.Inference

variable {inv : Session → Session → Prop} {setting : Setting} {pass pass' : Infer Frame}
  {key other : String} {p q : Placeholder} {s s' t : Session}

/-- The session after a placeholder has moved. -/
def Session.moved (s : Session) (key : String) (p : Placeholder) (next : Ty)
    (history : List Ty) : Session :=
  { s with
    cache := s.cache.setPlaceholder key
      { p with ret := next, history := history, reentered := false }
    generation := s.generation + 1 }

theorem find?_setPlaceholder (cache : Cache) (key other : String) (p : Placeholder) :
    (cache.setPlaceholder key p).find? other =
      if key = other then some (.pending p) else cache.find? other :=
  Assoc.find?_insert cache.entries key other _

theorem pending?_of_find? (found : s.cache.find? key = some (.pending p)) :
    s.cache.pending? key = some p := by
  rw [Cache.pending?, found]

/-- One look at the placeholder: the frame is at rest, gives up, or the pass is repeated. -/
theorem settle_eq (pass : Infer Frame) (key : String) (left iteration : Nat) (frame : Frame) :
    settle setting pass key left iteration frame s =
      match s.cache.pending? key with
      | none => (.ok (frame, true), s)
      | some p =>
          if !p.reentered then (.ok (frame, true), s)
          else
            let (next, history) := nextReturn setting p frame.ret iteration
            if next.same p.ret then (.ok ({ frame with ret := next }, true), s)
            else
              match left with
              | 0 => (.ok ({ frame with ret := .any }, false), s)
              | left + 1 =>
                  (pass >>= settle setting pass key left (iteration + 1))
                    (s.moved key p next history) := by
  unfold settle
  change (match s.cache.pending? key with
    | none => _
    | some p => _ : Infer (Frame × Bool)) s = _
  cases s.cache.pending? key with
  | none => rfl
  | some p =>
      dsimp only
      split
      · rfl
      · split
        · rfl
        · cases left <;> rfl

/-- Repeating a pass keeps the status that all its frames have. -/
theorem status_of_settle {status : FrameStatus}
    (passes : ∀ s f s', pass s = (.ok f, s') → f.status = status) {left iteration : Nat}
    {frame result : Frame} {converged : Bool} {s : Session} (initial : frame.status = status)
    (done : settle setting pass key left iteration frame s = (.ok (result, converged), s')) :
    result.status = status := by
  rw [settle_eq] at done
  split at done
  · cases done
    exact initial
  · split at done
    · cases done
      exact initial
    · dsimp only at done
      split at done
      · cases done
        exact initial
      · match left with
        | 0 =>
            cases done
            exact initial
        | left + 1 =>
            obtain ⟨next, _, passed, rest⟩ := bind_eq_ok done
            exact status_of_settle passes (passes _ _ _ passed) rest

/-! ## Sessions that agree on a placeholder -/

/-- Whether a key is pending in both sessions, and as much is known of its call. -/
def PendingAlike (key : String) (s t : Session) : Prop :=
  ∃ p q, s.cache.find? key = some (.pending p) ∧ t.cache.find? key = some (.pending q) ∧
    p.ret = q.ret ∧ p.history = q.history ∧ p.reentered = q.reentered

/-- Invariants under which both placeholders of a key can move together. -/
structure Movable (inv : Session → Session → Prop) (key : String) : Prop where
  paired : ∀ s t, inv s t → PendingAlike key s t
  moved : ∀ s t p q next history, inv s t → s.cache.find? key = some (.pending p) →
    t.cache.find? key = some (.pending q) →
      inv (s.moved key p next history) (t.moved key q next history)

theorem nextReturn_congr (ret : p.ret = q.ret) (history : p.history = q.history) (type : Ty)
    (iteration : Nat) :
    nextReturn setting p type iteration = nextReturn setting q type iteration := by
  unfold nextReturn
  rw [ret, history]

/-- Whether frames that are related return the same, and are related whatever else they return. -/
structure RelatesReturns (related : Frame → Frame → Prop) : Prop where
  ret : ∀ f g, related f g → f.ret = g.ret
  returning : ∀ f g ret, related f g → related { f with ret := ret } { g with ret := ret }

theorem relatesReturns_twins (view : View) : RelatesReturns (Frame.Twins view) where
  ret _ _ twins := twins.ret
  returning _ _ ret twins := ⟨twins.toAlike.returning ret, twins.status, twins.origin⟩

variable {related : Frame → Frame → Prop}

theorem tracks_settle (returns : RelatesReturns related) (movable : Movable inv key)
    (passes : Tracks inv related pass pass') (left iteration : Nat) {f g : Frame}
    (alike : related f g) :
    Tracks inv (fun x y => related x.1 y.1) (settle setting pass key left iteration f)
      (settle setting pass' key left iteration g) := by
  intro s t x y s' t' kept first second
  obtain ⟨p, q, found, found', ret, history, reentered⟩ := movable.paired s t kept
  rw [settle_eq, pending?_of_find? found] at first
  rw [settle_eq, pending?_of_find? found'] at second
  dsimp only at first second
  rw [← returns.ret f g alike, ← nextReturn_congr ret history, ← reentered, ← ret] at second
  split at first
  · rename_i quiet
    rw [if_pos quiet] at second
    cases first
    cases second
    exact ⟨alike, kept⟩
  · rename_i met
    rw [if_neg met] at second
    split at first
    · rename_i rest
      rw [if_pos rest] at second
      cases first
      cases second
      exact ⟨returns.returning f g _ alike, kept⟩
    · rename_i moves
      rw [if_neg moves] at second
      match left with
      | 0 =>
          cases first
          cases second
          exact ⟨returns.returning f g _ alike, kept⟩
      | left + 1 =>
          have again := movable.moved s t p q (nextReturn setting p f.ret iteration).1
            (nextReturn setting p f.ret iteration).2 kept found found'
          have repeated := Tracks.bind passes fun f' g' alike' =>
            tracks_settle returns movable passes left (iteration + 1) alike'
          exact repeated _ _ x y s' t' again first second

/-- The passes over a call lead to frames that are related as those of each pass are. -/
theorem tracks_fixpoint (returns : RelatesReturns related) (movable : Movable inv key)
    (passes : Tracks inv related pass pass') :
    Tracks inv (fun x y => related x.1 y.1) (fixpoint setting pass key)
      (fixpoint setting pass' key) :=
  Tracks.bind passes fun _ _ alike => tracks_settle returns movable passes _ 1 alike

end Multimethod.Inference
