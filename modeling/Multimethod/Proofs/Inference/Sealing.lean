import Mathlib.Logic.Relation
import Mathlib.Order.Bounds.Defs
import Multimethod.Proofs.Inference.Balance
import Multimethod.Proofs.Inference.Probe

/-!
# What is sealed

A call reads the position of an unfinished call on the stack when it meets a placeholder, or when
it reuses a provisional result. The frames on the stack keep the lowest position outside their own
that was read within them, so a call is finished exactly if nothing within it has read a position
further out.
-/

namespace Multimethod.Inference

open Relation

/-- The stack position of the unfinished call that a call reads when it is answered. -/
def Call.read? (setting : Setting) (call : Call) : Option Nat :=
  match call.session.cache.find? (call.key setting) with
  | some (.finished _) => none
  | some (.pending p) => some p.depth.toNat
  | none => (call.memo? setting).map Provisional.dependsOn

/-- Whether a call, or a call within it at any depth, reads a stack position. -/
def Call.Reads (setting : Setting) (call : Call) (position : Nat) : Prop :=
  ∃ inner, ReflTransGen (Nested setting) call inner ∧ inner.read? setting = some position

/-- Whether `lowest` is the least of the positions with a property, or absent if there is none. -/
def Lowest (property : Nat → Prop) : Option Nat → Prop
  | none => ∀ d, ¬ property d
  | some d => property d ∧ ∀ e, property e → d ≤ e

/-- Whether a stack has become another one when positions were read: the innermost frame has noted
    the lowest of them that is further out than itself. -/
inductive Noted (read : Nat → Prop) : List Active → List Active → Prop where
  | none : Noted read [] []
  | top {top : Active} {below : List Active} {dependsOn : Option Nat}
      (lowest : Lowest (fun d => top.dependsOn = some d ∨ (read d ∧ d < below.length)) dependsOn) :
      Noted read (top :: below) ({ top with dependsOn := dependsOn } :: below)

variable {setting : Setting} {call inner : Call} {frame : Frame} {s t u : Session}
  {p q : Nat → Prop} {old mid new : List Active} {o r : Option Nat} {n : Nat}

/-! ## Noting positions -/

theorem Lowest.congr (lowest : Lowest p o) (same : ∀ d, p d ↔ q d) : Lowest q o := by
  rwa [← show p = q from funext fun d => propext (same d)]

theorem lowest_some (o : Option Nat) : Lowest (fun d => o = some d) o := by
  cases o with
  | none => simp [Lowest]
  | some d =>
      refine ⟨rfl, fun e same => ?_⟩
      cases same
      exact Nat.le_refl d

/-- Further positions are compared with the lowest one so far. -/
theorem Lowest.trans (first : Lowest p o) (second : Lowest (fun d => o = some d ∨ q d) r) :
    Lowest (fun d => p d ∨ q d) r := by
  cases o with
  | none => exact second.congr fun d => by simp [first d]
  | some m =>
      cases r with
      | none => exact absurd (Or.inl rfl) (second m)
      | some k =>
          obtain ⟨holds, least⟩ := second
          refine ⟨holds.imp_left fun same => ?_, ?_⟩
          · cases same
            exact first.1
          rintro e (before | further)
          · exact Nat.le_trans (least m (Or.inl rfl)) (first.2 e before)
          · exact least e (Or.inr further)

theorem Noted.congr (noted : Noted p old new) (same : ∀ d, p d ↔ q d) : Noted q old new := by
  rwa [← show p = q from funext fun d => propext (same d)]

theorem Noted.refl (stack : List Active) (nothing : ∀ d, ¬ p d) : Noted p stack stack := by
  cases stack with
  | nil => exact .none
  | cons top below =>
      refine @Noted.top p top below top.dependsOn ((lowest_some top.dependsOn).congr fun d => ?_)
      simp [nothing d]

theorem Noted.trans (first : Noted p old mid) (second : Noted q mid new) :
    Noted (fun d => p d ∨ q d) old new := by
  cases first with
  | none =>
      cases second
      exact .none
  | top lowest =>
      cases second with
      | top lowest' =>
          refine .top ((lowest.trans lowest').congr fun d => ?_)
          rw [or_assoc, or_and_right]

/-- Noting a single position. -/
theorem noted_dependOn (stack : List Active) (depth : Nat) :
    Noted (fun d => d = depth) stack (dependOn stack depth) := by
  cases stack with
  | nil => exact .none
  | cons top below =>
      rw [dependOn]
      split
      · rename_i further
        refine .top ?_
        cases top.dependsOn with
        | none => exact ⟨Or.inr ⟨rfl, further⟩, by simp⟩
        | some d =>
            refine ⟨?_, ?_⟩
            · simp only [Option.map_some, Option.getD_some, Option.some.injEq]
              omega
            · simp only [Option.map_some, Option.getD_some, Option.some.injEq]
              omega
      · refine @Noted.top _ top below top.dependsOn
          ((lowest_some top.dependsOn).congr fun d => ?_)
        have none : ¬ (d = depth ∧ d < below.length) := by omega
        rw [or_iff_left none]

/-- What has been noted for each of several sets of positions has been noted for all of them. -/
theorem Noted.union {ι : Type} [Nonempty ι] {family : ι → Nat → Prop}
    (each : ∀ i, Noted (family i) old new) : Noted (fun d => ∃ i, family i d) old new := by
  obtain ⟨i⟩ := ‹Nonempty ι›
  cases each i with
  | none => exact .none
  | @top top below dependsOn lowest =>
      have all : ∀ j, Lowest (fun d => top.dependsOn = some d ∨ (family j d ∧ d < below.length))
          dependsOn := by
        intro j
        generalize here : { top with dependsOn := dependsOn } = top' at each
        cases each j with
        | @top _ _ dependsOn' lowest =>
            cases here
            exact lowest
      refine .top ?_
      cases dependsOn with
      | none =>
          rintro d (before | ⟨⟨j, read⟩, further⟩)
          · exact all i d (Or.inl before)
          · exact all j d (Or.inr ⟨read, further⟩)
      | some m =>
          refine ⟨lowest.1.imp_right fun read => ⟨⟨i, read.1⟩, read.2⟩, ?_⟩
          rintro d (before | ⟨⟨j, read⟩, further⟩)
          · exact (all i).2 d (Or.inl before)
          · exact (all j).2 d (Or.inr ⟨read, further⟩)

/-- Of the positions further out than a call, its caller has to note only the lowest. -/
theorem Noted.of_lowest (noted : Noted (fun d => o = some d) old new)
    (lowest : Lowest (fun d => p d ∧ d < old.length) o) : Noted p old new := by
  cases noted with
  | none => exact .none
  | @top top below dependsOn least =>
      refine .top ?_
      have below : ∀ e, p e → e < below.length → ∃ m ≤ e, o = some m := by
        intro e read further
        cases o with
        | none => exact absurd ⟨read, Nat.lt_succ_of_lt further⟩ (lowest e)
        | some m => exact ⟨m, lowest.2 e ⟨read, Nat.lt_succ_of_lt further⟩, rfl⟩
      cases dependsOn with
      | none =>
          rintro e (before | ⟨read, further⟩)
          · exact least e (Or.inl before)
          · obtain ⟨m, less, same⟩ := below e read further
            exact least m (Or.inr ⟨same, Nat.lt_of_le_of_lt less further⟩)
      | some k =>
          refine ⟨least.1.imp_right ?_, ?_⟩
          · rintro ⟨rfl, further⟩
            exact ⟨lowest.1.1, further⟩
          · rintro e (before | ⟨read, further⟩)
            · exact least.2 e (Or.inl before)
            · obtain ⟨m, less, same⟩ := below e read further
              exact Nat.le_trans (least.2 m (Or.inr ⟨same, Nat.lt_of_le_of_lt less further⟩)) less

/-! ## Reading -/

theorem Nested.isNew (nested : Nested setting call inner) : call.IsNew setting := by
  cases nested with
  | pass enters _ _ _ => exact enters.toIsNew

/-- A call reads what it reads itself and what the calls directly within it read. -/
theorem reads_iff {d : Nat} :
    call.Reads setting d ↔
      call.read? setting = some d ∨ ∃ inner, Nested setting call inner ∧ inner.Reads setting d := by
  constructor
  · rintro ⟨inner, within, read⟩
    rcases ReflTransGen.cases_head_iff.1 within with rfl | ⟨next, nested, within⟩
    · exact Or.inl read
    · exact Or.inr ⟨next, nested, inner, within, read⟩
  · rintro (read | ⟨next, nested, inner, within, read⟩)
    · exact ⟨call, .refl, read⟩
    · exact ⟨inner, .head nested within, read⟩

theorem Call.IsNew.reads_iff (new : call.IsNew setting) {d : Nat} :
    call.Reads setting d ↔ ∃ inner, Nested setting call inner ∧ inner.Reads setting d := by
  rw [Inference.reads_iff, Call.read?, new.unknown, new.unshelved]
  simp

/-- A call that is answered at once has no calls within it. -/
theorem reads_of_not_new (known : ¬ call.IsNew setting) {d : Nat} :
    call.Reads setting d ↔ call.read? setting = some d := by
  rw [reads_iff, or_iff_left]
  rintro ⟨inner, nested, -⟩
  exact known nested.isNew

/-- Whether the reads of a call have been noted by the frame that made it. -/
def Call.Notes (setting : Setting) (call : Call) : Prop :=
  ∀ frame t, call.answer setting = (.ok frame, t) →
    Noted (call.Reads setting) call.session.stack t.stack

/-- The reads of a script are noted, if those of its calls are. -/
theorem Script.noted {α : Type} {room : Nat} {x : α} (script : Script α)
    (notes : ∀ call : Call, call.room = room → call.InOrder setting → call.Notes setting)
    (orderly : Orderly setting.options s.cache s.stack)
    (fits : room + s.stack.length = setting.options.maxCallDepth.toNat)
    (ran : script.run (interpret setting room) s = (.ok x, t)) :
    Noted (fun d => ∃ inner, script.Makes setting room s inner ∧ inner.Reads setting d)
      s.stack t.stack := by
  induction script generalizing s with
  | done y =>
      cases ran
      refine .refl _ ?_
      rintro d ⟨inner, made, -⟩
      cases made
  | stray jump loc => cases ran
  | call callee args loc next ih =>
      obtain ⟨frame, u, answered, ran⟩ := bind_eq_ok ran
      have inOrder : Call.InOrder setting ⟨room, callee, args, loc, s⟩ := ⟨orderly, fits⟩
      have kept := (keeps_of_inOrder _ inOrder).of_ok answered
      have further := ih frame kept.orderly (by rw [kept.stack.length, fits]) ran
      refine ((notes _ rfl inOrder frame u answered).trans further).congr fun d => ?_
      constructor
      · rintro (read | ⟨inner, makes, read⟩)
        · exact ⟨_, .here, read⟩
        · exact ⟨inner, .later answered makes, read⟩
      · rintro ⟨inner, makes, read⟩
        cases makes with
        | here => exact Or.inl read
        | later answered' makes =>
            cases answered.symm.trans answered'
            exact Or.inr ⟨inner, makes, read⟩

/-! ## Storing -/

/-- A result is shelved if it depends on a frame of the stack, and finished otherwise. -/
inductive Stored (key : String) (frame : Frame) (t : Session) : Option Nat → Prop where
  | finished {converged : Bool}
      (found : t.cache.find? key = some (.finished ⟨frame, converged⟩)) : Stored key frame t none
  | shelved {memo : Provisional} {d : Nat} (dropped : t.cache.find? key = none)
      (found : t.provisional.find? key = some memo) (same : memo.frame = frame)
      (dependsOn : memo.dependsOn = d) : Stored key frame t (some d)

/-- Storing the result of the innermost call, which depends on at most the frames below it. -/
theorem stored_of_store {key : String} {converged : Bool} {p : Placeholder} {x : Unit}
    (pending : s.cache.find? key = some (.pending p)) (outer : ∀ d ∈ o, d < s.stack.length)
    (done : store key o frame converged s = (.ok x, t)) :
    Stored key frame t o ∧ Noted (fun d => o = some d) s.stack t.stack := by
  obtain ⟨_, _, got, done⟩ := bind_eq_ok done
  cases got
  cases o with
  | none =>
      obtain ⟨cache, finished, rfl⟩ := store_eq_ok done
      exact ⟨.finished ((find?_finish finished).trans (if_pos rfl)), .refl _ (by simp)⟩
  | some d =>
      have present : d < s.stack.reverse.length := by
        rw [List.length_reverse]
        exact outer d rfl
      rw [headOf, List.getElem?_eq_getElem present] at done
      cases done
      refine ⟨.shelved (find?_discard_self pending)
        ((Assoc.find?_insert _ _ _ _).trans (if_pos rfl)) rfl rfl,
        (noted_dependOn s.stack d).congr fun e => ?_⟩
      rw [Option.some.injEq, eq_comm]

/-- The steps of a call that is analysed and answered. -/
theorem analysis_eq_ok (done : call.analysis setting s = (.ok frame, t)) :
    ∃ u v converged,
      enter call.callee (call.widened setting) call.site (call.key setting) s = (.ok (), u) ∧
      fixpoint setting (call.pass setting) (call.key setting) u = (.ok (frame, converged), v) ∧
      store (call.key setting) (v.stack.head?.bind (·.dependsOn)) frame converged
        { v with stack := v.stack.tail } = (.ok (), t) := by
  obtain ⟨_, u, entered, done⟩ := bind_eq_ok done
  obtain ⟨⟨result, converged, dependsOn⟩, _, popped, done⟩ := bind_eq_ok done
  obtain ⟨_, _, stored, returned⟩ := bind_eq_ok done
  cases returned
  obtain ⟨v, inside, rfl⟩ := popOnExit_eq_ok popped
  obtain ⟨⟨_, _⟩, _, settled, noted⟩ := bind_eq_ok inside
  cases noted
  exact ⟨u, v, converged, entered, settled, stored⟩

/-! ## Calls -/

/-- The calls within a call are noted by its own frame. -/
theorem noted_of_begins {script : Script Frame} (inOrder : call.InOrder setting)
    (enters : call.Enters setting s) (follows : call.HasScript setting script)
    (notes : ∀ inner : Call, inner.room = call.room - 1 → inner.InOrder setting →
      inner.Notes setting)
    (begins : Begins setting (call.pass setting) (call.key setting) s n t)
    (passed : call.pass setting t = (.ok frame, u)) :
    Noted (fun d => ∃ m ≤ n, ∃ v, Begins setting (call.pass setting) (call.key setting) s m v ∧
      ∃ inner, script.Makes setting (call.room - 1) v inner ∧ inner.Reads setting d)
      s.stack u.stack := by
  have fits := inOrder.room
  have room := enters.room
  -- what a single pass reads is what its script does
  have once : ∀ {t u frame n},
      Begins setting (call.pass setting) (call.key setting) s n t →
      call.pass setting t = (.ok frame, u) → Noted (fun d => ∃ v,
        Begins setting (call.pass setting) (call.key setting) s n v ∧
        ∃ inner, script.Makes setting (call.room - 1) v inner ∧ inner.Reads setting d)
        t.stack u.stack := by
    intro t u frame n begins passed
    have opened := begins.open inOrder enters
    have ran : script.run (interpret setting (call.room - 1)) t = (.ok frame, u) := by
      rw [← follows]
      exact passed
    refine (script.noted notes opened.orderly (by rw [opened.length]; omega) ran).congr fun d => ?_
    constructor
    · exact fun read => ⟨t, begins, read⟩
    · rintro ⟨v, begins', read⟩
      exact begins.unique begins' ▸ read
  induction begins generalizing frame u with
  | first =>
      refine (once .first passed).congr fun d => ⟨fun ⟨v, read⟩ => ⟨0, Nat.le_refl 0, v, read⟩, ?_⟩
      rintro ⟨m, less, read⟩
      cases Nat.le_zero.1 less
      exact read
  | @again n v w before moves more ih =>
      have last := once (.again before moves more) passed
      obtain ⟨_, _, _, _, _, passed', -, -, -, -, rfl⟩ := nextPass_eq_some moves
      refine ((ih passed').trans last).congr fun d => ⟨?_, ?_⟩
      · rintro (⟨m, less, read⟩ | read)
        · exact ⟨m, Nat.le_succ_of_le less, read⟩
        · exact ⟨n + 1, Nat.le_refl _, read⟩
      · rintro ⟨m, less, read⟩
        rcases Nat.le_succ_iff.1 less with less | rfl
        · exact Or.inl ⟨m, less, read⟩
        · exact Or.inr read

/-- There was room for a call that was analysed and answered. -/
theorem Call.IsNew.room (new : call.IsNew setting)
    (answered : call.answer setting = (.ok frame, t)) : call.room ≠ 0 := by
  intro full
  rw [Call.answer_eq, new.unknown, new.unshelved] at answered
  dsimp only at answered
  rw [if_pos full] at answered
  cases answered

/-- The frame of a call notes everything that is read within the call. -/
theorem Call.Enters.noted (enters : call.Enters setting s) (inOrder : call.InOrder setting)
    (notes : ∀ inner : Call, inner.room = call.room - 1 → inner.InOrder setting →
      inner.Notes setting)
    (begins : Begins setting (call.pass setting) (call.key setting) s n t)
    (last : ∀ m u, Begins setting (call.pass setting) (call.key setting) s m u → m ≤ n)
    (passed : call.pass setting t = (.ok frame, u)) :
    Noted (call.Reads setting) s.stack u.stack := by
  -- whatever script the passes follow, they make the same calls
  have scripts : Nonempty { script // call.HasScript setting script } :=
    nonempty_subtype.2 (call.exists_hasScript setting)
  refine (Noted.union fun script : { script // call.HasScript setting script } =>
    noted_of_begins inOrder enters script.2 notes begins passed).congr fun d => ?_
  rw [enters.toIsNew.reads_iff]
  constructor
  · rintro ⟨⟨script, follows⟩, m, -, x, begins, inner, makes, read⟩
    exact ⟨inner, .pass enters begins follows makes, read⟩
  · rintro ⟨inner, nested, read⟩
    cases nested with
    | pass enters' begins follows makes =>
        cases enters.entered.symm.trans enters'.entered
        exact ⟨⟨_, follows⟩, _, last _ _ begins, _, begins, inner, makes, read⟩

/-- A call that is analysed depends on the lowest position further out that is read within it: its
    result is stored accordingly, and the frame that made the call notes what is read. -/
theorem stored_of_new (inOrder : call.InOrder setting) (new : call.IsNew setting)
    (notes : ∀ inner : Call, inner.room = call.room - 1 → inner.InOrder setting →
      inner.Notes setting) (answered : call.answer setting = (.ok frame, t)) :
    ∃ dependsOn,
      Lowest (fun d => call.Reads setting d ∧ d < call.session.stack.length) dependsOn ∧
      Stored (call.key setting) frame t dependsOn ∧
      Noted (call.Reads setting) call.session.stack t.stack := by
  have room := new.room answered
  rw [Call.answer_of_new new room] at answered
  obtain ⟨u, v, converged, entered, settled, stored⟩ := analysis_eq_ok answered
  have enters : call.Enters setting u := { new with room := room, entered := entered }
  obtain ⟨n, w, begins, last, ends⟩ :=
    exists_last_pass setting (call.pass setting) (call.key setting) u
  obtain ⟨frame', passed, -⟩ := Ends.of_ok ends settled
  have noted := enters.noted inOrder notes begins last passed
  have opened := begins.open inOrder enters
  have kept := (opened.ends_pass inOrder room fun inner _ => keeps_of_inOrder inner).of_ok passed
  obtain ⟨p, pending⟩ := (opened.kept kept).pending
  obtain ⟨cache, -, rfl⟩ := enter_eq_ok entered
  generalize same : v.stack = stack at noted stored
  cases noted with
  | @top _ _ dependsOn lowest =>
      have lowest : Lowest (fun d => call.Reads setting d ∧ d < call.session.stack.length)
          dependsOn := lowest.congr fun d => by simp
      have outer : ∀ d ∈ dependsOn, d < call.session.stack.length := by
        rintro d ⟨⟩
        exact lowest.1.2
      obtain ⟨kept, read⟩ := stored_of_store (s := { v with stack := call.session.stack }) pending
        outer stored
      exact ⟨dependsOn, lowest, kept, read.of_lowest lowest⟩

/-- Every call has its reads noted. -/
theorem notes_of_inOrder (call : Call) (inOrder : call.InOrder setting) : call.Notes setting := by
  have notes : ∀ inner : Call, call.room ≠ 0 → inner.room = call.room - 1 →
      inner.InOrder setting → inner.Notes setting := by
    intro inner room less inOrder
    exact notes_of_inOrder inner inOrder
  intro frame t answered
  by_cases new : call.IsNew setting
  · have room := new.room answered
    obtain ⟨-, -, -, noted⟩ := stored_of_new inOrder new (fun inner => notes inner room) answered
    exact noted
  · refine Noted.congr ?_ fun d => (reads_of_not_new new).symm
    rw [Call.answer_eq] at answered
    unfold Call.read?
    cases found : call.session.cache.find? (call.key setting) with
    | some entry =>
        rw [found] at answered
        cases entry with
        | finished result =>
            cases answered
            exact .refl _ (by simp)
        | pending p =>
            cases answered
            refine (noted_dependOn _ _).congr fun d => ?_
            simp [eq_comm]
    | none =>
        rw [found] at answered
        cases shelved : call.memo? setting with
        | none => exact absurd ⟨found, shelved⟩ new
        | some memo =>
            rw [shelved] at answered
            cases answered
            refine (noted_dependOn _ _).congr fun d => ?_
            simp [eq_comm]
termination_by call.room

/-- A call of a run that is analysed and answered is finished if and only if nothing within it has
    read the position of a call further out. Otherwise its key is dropped, and its result is kept as
    provisional with the lowest such position. -/
theorem finished_iff_nothing_outer_read (setting : Setting) (entries : List EntryCall)
    (inRun : InRun setting entries call) (new : call.IsNew setting)
    (answered : call.answer setting = (.ok frame, t)) :
    ((∃ converged, t.cache.find? (call.key setting) = some (.finished ⟨frame, converged⟩)) ↔
        ∀ position, call.Reads setting position → call.session.stack.length ≤ position) ∧
      ∀ least, IsLeast { position | call.Reads setting position ∧
          position < call.session.stack.length } least →
        t.cache.find? (call.key setting) = none ∧
          ∃ memo, t.provisional.find? (call.key setting) = some memo ∧ memo.frame = frame ∧
            memo.dependsOn = least := by
  obtain ⟨dependsOn, lowest, stored, -⟩ := stored_of_new inRun.inOrder new
    (fun inner _ => notes_of_inOrder inner) answered
  cases stored with
  | finished found =>
      have nothing : ∀ position, call.Reads setting position →
          call.session.stack.length ≤ position :=
        fun position read => Nat.le_of_not_lt fun outer => lowest position ⟨read, outer⟩
      refine ⟨⟨fun _ => nothing, fun _ => ⟨_, found⟩⟩, fun least isLeast => ?_⟩
      exact absurd isLeast.1 (lowest least)
  | @shelved memo d dropped found same dependsOn =>
      refine ⟨⟨fun ⟨converged, finished⟩ => ?_, fun nothing => ?_⟩, fun least isLeast => ?_⟩
      · rw [dropped] at finished
        cases finished
      · exact absurd (nothing d lowest.1.1) (Nat.not_le_of_lt lowest.1.2)
      · have equal : least = d := Nat.le_antisymm (isLeast.2 lowest.1) (lowest.2 least isLeast.1)
        exact ⟨dropped, memo, found, same, dependsOn.trans equal.symm⟩

/-- `f` is finished. Within it, `g` reads the position of `f`, so its result is provisional. -/
theorem finished_iff_nothing_outer_read_roundTrip :
    ∃ f g frame t result u, InRun roundTrip [callOfF] f ∧ Nested roundTrip f g ∧
      f.answer roundTrip = (.ok frame, t) ∧ g.answer roundTrip = (.ok result, u) ∧
      (∃ converged, t.cache.find? "f(Int)" = some (.finished ⟨frame, converged⟩)) ∧
      u.cache.find? "g(Int)" = none ∧
      ∃ memo, u.provisional.find? "g(Int)" = some memo ∧ memo.frame = result ∧
        memo.dependsOn = 0 := by
  let f : Call := ⟨100, "f", [.int], default, Session.start roundTrip.options⟩
  let g : Call := ⟨99, "g", [.int], default, f.entering roundTrip⟩
  let again : Call := ⟨98, "f", [.int], default, g.entering roundTrip⟩
  have inRun : InRun roundTrip [callOfF] f := by
    have evaluated : evalAll roundTrip (interpretCall roundTrip) callOfF.args roundTrip.globals
        Body.start f.session = (.ok ([.int], Body.start), f.session) := rfl
    exact .entry ⟨[], [], [], rfl, rfl⟩ (.own evaluated (by decide) (by decide +kernel))
  have entersF : f.Enters roundTrip (f.entering roundTrip) :=
    Call.enters_entering (by decide +kernel) (by decide +kernel) (by decide) (by decide +kernel)
  have entersG : g.Enters roundTrip (g.entering roundTrip) :=
    Call.enters_entering (by decide +kernel) (by decide +kernel) (by decide) (by decide +kernel)
  have callsG : Nested roundTrip f g := entersF.nested (by with_unfolding_all rfl)
  have callsF : Nested roundTrip g again := entersG.nested (by with_unfolding_all rfl)
  have reads : g.Reads roundTrip 0 := ⟨again, .single callsF, rfl⟩
  obtain ⟨frame, t, answeredF, -⟩ := exists_of_succeeds
    (show succeeds (fun _ : Frame => true) (f.answer roundTrip) = true by decide +kernel)
  obtain ⟨result, u, answeredG, -⟩ := exists_of_succeeds
    (show succeeds (fun _ : Frame => true) (g.answer roundTrip) = true by decide +kernel)
  have sealedF :=
    finished_iff_nothing_outer_read roundTrip [callOfF] inRun entersF.toIsNew answeredF
  have shelvedG := finished_iff_nothing_outer_read roundTrip [callOfF] (inRun.nested callsG)
    entersG.toIsNew answeredG
  obtain ⟨dropped, memo, found, same, depends⟩ :=
    shelvedG.2 0 ⟨⟨reads, by decide⟩, fun _ _ => Nat.zero_le _⟩
  exact ⟨f, g, frame, t, result, u, inRun, callsG, answeredF, answeredG,
    sealedF.1.2 fun _ _ => Nat.zero_le _, dropped, memo, found, same, depends⟩

end Multimethod.Inference
