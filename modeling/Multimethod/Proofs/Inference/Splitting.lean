import Multimethod.Profile.Basic
import Multimethod.Proofs.Inference.Entry
import Multimethod.Proofs.Inference.Filing
import Multimethod.Proofs.Inference.Grounding
import Multimethod.Proofs.Ty.Cases

/-!
# Split calls and calls that are not split

A call with unions is analysed choice by choice within the limit, and as a whole past it; its choices
are then only looked up. An analysed choice is errored exactly if looking it up fails, also when it is
answered from the cache. So both ways report the same errors of dispatch, as long as no two types
share an id.
-/

namespace Multimethod.Inference

open Dispatch Multimethod.Lattice Multimethod.Ty

/-! ## Choices of members -/

/-- Whether the choices of members of a call can be analysed one after the other: no frame stands at
    the place of the call, none of the choices is pending, and there is the right room. -/
structure Clear (setting : Setting) (callee : String) (loc : Location) (choices : List (List Ty))
    (room : Nat) (s : Session) : Prop where
  of : s.Of setting.Ground
  filed : s.Filed setting False
  orderly : Orderly setting.options s.cache s.stack
  fits : room + s.stack.length = setting.options.maxCallDepth.toNat
  apart : ∀ a ∈ s.stack, ¬(a.callee = callee ∧ a.loc = loc)
  free : ∀ choice ∈ choices, ∀ a ∈ s.stack, a.key ≠ Cache.keyOf callee choice

variable {setting : Setting} {s t : Session} {frame : Frame} {args choice : List Ty}
  {choices : List (List Ty)} {callee : String} {loc : Location} {site : CallSite} {room : Nat}
  {entries : List EntryCall}

theorem Notes.forall_mem {old new : List Active} (notes : Notes old new) {p : Active → Prop}
    (noted : ∀ a dependsOn, p a → p { a with dependsOn := dependsOn }) (all : ∀ a ∈ old, p a) :
    ∀ a ∈ new, p a := by
  cases notes with
  | none => exact all
  | top dependsOn =>
      rw [List.forall_mem_cons] at all ⊢
      exact ⟨noted _ _ all.1, all.2⟩

theorem Clear.kept (clear : Clear setting callee loc choices room s) (kept : Kept setting s t)
    (of : t.Of setting.Ground) (filed : t.Filed setting False) :
    Clear setting callee loc choices room t where
  of := of
  filed := filed
  orderly := kept.orderly
  fits := by rw [kept.stack.length, clear.fits]
  apart := kept.stack.forall_mem (fun _ _ other => other) clear.apart
  free choice member := kept.stack.forall_mem (fun _ _ other => other) (clear.free choice member)

theorem Clear.fewer (clear : Clear setting callee loc (choice :: choices) room s) :
    Clear setting callee loc choices room s :=
  { clear with free := fun choice member => clear.free choice (List.mem_cons_of_mem _ member) }

section Choices

variable (wellFormed : setting.WellFormed)
include wellFormed

/-- A choice is answered with its own frame, and the others can still be analysed. -/
theorem Clear.ends_choice (clear : Clear setting callee loc choices room s)
    (member : choice ∈ choices) (ground : ∀ t ∈ choice, setting.Ground t) :
    Ends (fun frame t => Judged setting { callee := callee, loc := loc } choice frame ∧
        Clear setting callee loc choices room t) (fun _ _ => True)
      (interpret setting room callee choice { callee := callee, loc := loc } s) := by
  let call : Call := ⟨room, callee, choice, loc, s⟩
  have closed := wellFormed.closed
  have of : call.Of setting.Ground := ⟨ground, clear.of⟩
  have same : call.widened setting = choice := widenRecursiveArgs_of_same fun a member here place =>
    absurd ⟨here, place⟩ (clear.apart a member)
  have key : call.key setting = Cache.keyOf callee choice := by rw [Call.key, same]
  have free : ∀ p, call.session.cache.find? (call.key setting) ≠ some (.pending p) := by
    intro p pending
    obtain ⟨a, inside, named⟩ := clear.orderly.owner _ p pending
    exact clear.free choice member a inside (named.trans key)
  have judged := Call.judged closed False.elim (keysIdentify_ground setting.hierarchy) call of
    clear.filed free
  have settles := Call.settles closed False.elim call of clear.filed
  have keeps := keeps_of_inOrder call ⟨clear.orderly, clear.fits⟩
  refine (judged.and (settles.and keeps)).imp (fun frame t after => ?_) fun _ _ _ => trivial
  obtain ⟨own, ⟨-, ready⟩, kept⟩ := after
  rw [same] at own
  exact ⟨own, clear.kept kept ready.of ready.filed⟩

/-- The choices of a call are answered with their own frames, one after the other. -/
theorem Clear.judged (clear : Clear setting callee loc choices room s)
    (ground : ∀ choice ∈ choices, ∀ t ∈ choice, setting.Ground t) {result ret : Ty}
    {accepted accepted' : Bool} {body body' : Body}
    (done : callCases setting (interpret setting room) callee { callee := callee, loc := loc }
      choices result accepted body s = (.ok ((ret, accepted'), body'), t)) :
    ∃ frames, body'.children = body.children ++ frames ∧
      List.Forall₂ (Judged setting { callee := callee, loc := loc }) choices frames := by
  induction choices generalizing result accepted body s with
  | nil =>
      cases done
      exact ⟨[], (List.append_nil _).symm, .nil⟩
  | cons choice choices ih =>
      rw [callCases] at done
      obtain ⟨frame, _, u, called, following⟩ := Walk.bind_eq_ok done
      obtain ⟨first, rfl⟩ := Walk.call_eq_ok called
      obtain ⟨_, _, _, attached, remaining⟩ := Walk.bind_eq_ok following
      cases attached
      rw [List.forall_mem_cons] at ground
      obtain ⟨own, after⟩ :=
        (clear.ends_choice wellFormed List.mem_cons_self ground.1).of_ok first
      obtain ⟨frames, children, rest⟩ := ih after.fewer ground.2 remaining
      refine ⟨frame :: frames, ?_, .cons own rest⟩
      rw [children, List.append_assoc, List.singleton_append]

end Choices

/-- What the errored frames among some frames tell: their arguments, what they return and their
    diagnostics. -/
def erroredCases (frames : List Frame) : List (List Ty × Ty × List Diagnostic) :=
  (frames.filter (·.status == .errored)).map fun frame => (frame.args, frame.ret, frame.errors)

theorem erroredCases_cons_of_errored {frames : List Frame} (errored : frame.status = .errored) :
    erroredCases (frame :: frames) =
      (frame.args, frame.ret, frame.errors) :: erroredCases frames := by
  simp [erroredCases, errored]

theorem erroredCases_cons_of_not_errored {frames : List Frame} (accepted : frame.status ≠ .errored) :
    erroredCases (frame :: frames) = erroredCases frames := by
  simp [erroredCases, accepted]

/-- The frames of analysed choices are errored where looking up fails. -/
theorem erroredCases_of_judged {frames : List Frame}
    (judged : List.Forall₂ (Judged setting site) choices frames) (named : site.callee = callee) :
    erroredCases frames = erroredCases (choices.filterMap (rejection setting callee site)) := by
  induction judged with
  | nil => rfl
  | @cons choice frame choices frames own _ ih =>
      have call : rejection setting frame.site.callee frame.site frame.args =
          rejection setting callee site choice := by rw [own.site, own.args, named]
      cases answer : rejection setting callee site choice with
      | none =>
          have resolved := (Decided.iff_resolved (call.trans answer)).1 own.decided
          rw [List.filterMap_cons_none answer,
            erroredCases_cons_of_not_errored (by simp [resolved]), ih]
      | some alone =>
          have errored := (errored_of_rejection answer).1
          rw [List.filterMap_cons_some answer, erroredCases_cons_of_errored errored, ← ih]
          have kept := (Decided.iff_rejected (call.trans answer)).1 own.decided
          subst kept
          have status : frame.status = .errored := errored
          rw [erroredCases_cons_of_errored status, own.args]

/-! ## Limits -/

/-- Within the limit and past it, the errored frames of a call are those of the choices of members
    for which looking up fails, unless the call is rejected as a whole. -/
theorem erroredCases_callFunction (wellFormed : setting.WellFormed)
    (ground : ∀ t ∈ args, setting.Ground t)
    (clear : Clear setting callee loc (combinations args) room s) {ret : Ty} {body body' : Body}
    (accepted : setting.options.maxUnionSplit < caseCount args → ∀ frame u,
      interpret setting room callee args { callee := callee, loc := loc } s = (.ok frame, u) →
        frame.status ≠ .errored)
    (done : callFunction setting (interpret setting room) callee args
      { callee := callee, loc := loc } body s = (.ok (ret, body'), t)) :
    ∃ frames, body'.children = body.children ++ frames ∧
      erroredCases frames =
        erroredCases (unionCaseFrames setting callee args { callee := callee, loc := loc }) := by
  have normal : ∀ t ∈ args, t.isNormalUnion = true := by
    intro t member
    have ground := ground t member
    cases t with
    | union ms => exact (ground_union.1 ground).1
    | _ => rfl
  obtain ⟨taken, behind, analysed, -, children⟩ := callFunction_eq_ok done
  by_cases within : caseCount args ≤ setting.options.maxUnionSplit
  · rw [splitCases_of_le normal within] at analysed
    have choices : ∀ choice ∈ combinations args, ∀ t ∈ choice, setting.Ground t :=
      fun choice chosen => of_mem_combinations wellFormed.closed ground chosen
    obtain ⟨frames, added, judged⟩ := clear.judged wellFormed choices analysed
    refine ⟨frames, ?_, ?_⟩
    · rw [children, rejectedCases_of_le within, List.append_nil, added]
    · rw [unionCaseFrames_eq]
      exact erroredCases_of_judged judged rfl
  · have exceeds := Nat.lt_of_not_le within
    rw [splitCases_of_lt exceeds, callCases] at analysed
    obtain ⟨whole, _, u, called, following⟩ := Walk.bind_eq_ok analysed
    obtain ⟨first, rfl⟩ := Walk.call_eq_ok called
    obtain ⟨_, _, _, attached, finished⟩ := Walk.bind_eq_ok following
    cases attached
    cases finished
    have resolved := accepted exceeds whole _ first
    refine ⟨whole :: unionCaseFrames setting callee args { callee := callee, loc := loc }, ?_,
      erroredCases_cons_of_not_errored resolved⟩
    have taken : (whole.status != .errored) = true := by simp [resolved]
    rw [children, taken, Bool.true_and, rejectedCases_of_lt exceeds, List.append_assoc,
      List.singleton_append]

/-- A setting with another limit for the choices of members of a call. -/
def Setting.splitting (setting : Setting) (limit : Nat) : Setting :=
  { setting with options := { setting.options with maxUnionSplit := limit } }

/-- A call in a session of a run, with another limit for its choices of members and for those of
    the calls within it. -/
def callWithin (setting : Setting) (limit : Nat) (callee : String) (args : List Ty) (loc : Location)
    (body : Body) (s : Session) : Except Fault (Ty × Body) × Session :=
  callFunction (setting.splitting limit)
    (interpret (setting.splitting limit) (setting.options.maxCallDepth.toNat - s.stack.length))
    callee args { callee := callee, loc := loc } body s

/-- The frame of a call that is not split. -/
def callWhole (setting : Setting) (limit : Nat) (callee : String) (args : List Ty) (loc : Location)
    (s : Session) : Except Fault Frame × Session :=
  interpret (setting.splitting limit) (setting.options.maxCallDepth.toNat - s.stack.length)
    callee args { callee := callee, loc := loc } s

theorem Setting.WellFormed.splitting (wellFormed : setting.WellFormed) (limit : Nat) :
    (setting.splitting limit).WellFormed :=
  { wellFormed with }

theorem Visits.clear (wellFormed : setting.WellFormed) (ofEntries : EntriesOf setting.Ground entries)
    (visits : Visits setting entries s) (apart : ∀ a ∈ s.stack, ¬(a.callee = callee ∧ a.loc = loc))
    (free : ∀ choice ∈ choices, s.cache.pending? (Cache.keyOf callee choice) = none) (limit : Nat) :
    Clear (setting.splitting limit) callee loc choices
      (setting.options.maxCallDepth.toNat - s.stack.length) s where
  of := visits.of wellFormed.closed ofEntries
  filed := by
    have filed := visits.filed wellFormed.globals.distinct
    exact ⟨fun key result member => { filed.finished key result member with },
      fun key memo member => { filed.provisional key memo member with }⟩
  orderly := { visits.orderly with }
  fits := Nat.sub_add_cancel visits.orderly.height
  apart := apart
  free choice member a inside named := by
    obtain ⟨newer, older, split⟩ := List.append_of_mem inside
    obtain ⟨p, found, -⟩ := visits.orderly.owned a older (split ▸ List.suffix_append _ _)
    have pending := pending?_of_find? found
    rw [named, free choice member] at pending
    cases pending

/-- In a session of a well-formed program in which no frame stands at the place of a call and none of
    its choices of members is pending, a limit that splits the call and a smaller one lead to the same
    errored frames, unless the smaller one has the call rejected as a whole: with the same arguments,
    returned types and diagnostics, in the same order. -/
theorem split_errors_eq (setting : Setting) (wellFormed : setting.WellFormed)
    (entries : List EntryCall) (ofEntries : EntriesOf setting.Ground entries) (s : Session)
    (visits : Visits setting entries s) (callee : String) (loc : Location) (args : List Ty)
    (ground : ∀ t ∈ args, setting.Ground t)
    (apart : ∀ a ∈ s.stack, ¬(a.callee = callee ∧ a.loc = loc))
    (free : ∀ choice ∈ combinations args, s.cache.pending? (Cache.keyOf callee choice) = none)
    (wide narrow : Nat) (enough : caseCount args ≤ wide) (body wideBody narrowBody : Body)
    (wideRet narrowRet : Ty) (t u : Session)
    (wideDone : callWithin setting wide callee args loc body s = (.ok (wideRet, wideBody), t))
    (narrowDone : callWithin setting narrow callee args loc body s =
      (.ok (narrowRet, narrowBody), u))
    (accepted : narrow < caseCount args → ∀ frame v,
      callWhole setting narrow callee args loc s = (.ok frame, v) → frame.status ≠ .errored) :
    ∃ split whole, wideBody.children = body.children ++ split ∧
      narrowBody.children = body.children ++ whole ∧ erroredCases split = erroredCases whole := by
  have clear := visits.clear wellFormed ofEntries apart free
  obtain ⟨split, added, errors⟩ := erroredCases_callFunction (wellFormed.splitting wide) ground
    (clear wide) (fun exceeds => absurd exceeds (Nat.not_lt.2 enough)) wideDone
  obtain ⟨whole, added', errors'⟩ := erroredCases_callFunction (wellFormed.splitting narrow) ground
    (clear narrow) accepted narrowDone
  exact ⟨split, whole, added, added', errors.trans errors'.symm⟩

namespace Examples

/-- The call that an entry call is, if it is its own dispatch case, when its arguments have been
    evaluated in a session. -/
def ownCall? (setting : Setting) (entry : EntryCall) (s : Session) : Option Call :=
  match evalAll setting (interpretCall setting) entry.args setting.globals Body.start s with
  | (.ok (args, _), t) =>
      if !args.any Ty.isBottom && isOwnCase setting entry args then
        some ⟨setting.options.maxCallDepth.toNat, entry.callee, args, entry.loc, t⟩
      else none
  | (.error _, _) => none

theorem entryMakes_of_ownCall? {entry : EntryCall} {call : Call}
    (own : ownCall? setting entry s = some call) : EntryMakes setting entry s call := by
  unfold ownCall? at own
  split at own
  · rename_i args body t evaluated
    split at own
    · rename_i fits
      cases own
      rw [Bool.and_eq_true, Bool.not_eq_true'] at fits
      exact .own evaluated fits.1 fits.2
    · cases own
  · cases own

/-- The session behind the first entry call of a unit, before the call that the next one is. -/
def secondSession? (unit : CompiledUnit) : Option Session :=
  match unit.program.entries with
  | first :: second :: _ =>
      match runEntry (unit.setting {}) first (Session.start (unit.setting {}).options) with
      | (.ok _, t) => (ownCall? (unit.setting {}) second t).map Call.session
      | (.error _, _) => none
  | _ => none

theorem visits_of_secondSession? {unit : CompiledUnit} (second : secondSession? unit = some s) :
    Visits (unit.setting {}) unit.program.entries s := by
  unfold secondSession? at second
  split at second
  · rename_i first entry rest entries
    split at second
    · rename_i outcome t ran
      obtain ⟨call, own, rfl⟩ := Option.map_eq_some_iff.1 second
      rw [entries]
      refine .made (.entry ⟨[first], rest, [outcome], rfl, ?_⟩ (entryMakes_of_ownCall? own))
      rw [List.mapM_cons, bind_run, ran]
      rfl
    · cases second
  · cases second

/-- The errored frames that a call adds, if it comes to an end. -/
def erroredWithin? (setting : Setting) (limit : Nat) (callee : String) (args : List Ty)
    (loc : Location) (s : Session) : Option (List (List Ty × Ty × List Diagnostic)) :=
  match callWithin setting limit callee args loc Body.start s with
  | (.ok (_, body), _) => some (erroredCases body.children)
  | (.error _, _) => none

theorem exists_of_erroredWithin? {limit : Nat} {errored : List (List Ty × Ty × List Diagnostic)}
    (found : erroredWithin? setting limit callee args loc s = some errored) :
    ∃ ret body t, callWithin setting limit callee args loc Body.start s = (.ok (ret, body), t) ∧
      erroredCases body.children = errored := by
  unfold erroredWithin? at found
  split at found
  · rename_i ret body t done
    cases found
    exact ⟨ret, body, t, done, rfl⟩
  · cases found

/-- Whether a call that is not split is accepted, if it comes to an end. -/
def acceptsWhole (setting : Setting) (limit : Nat) (callee : String) (args : List Ty)
    (loc : Location) (s : Session) : Bool :=
  match callWhole setting limit callee args loc s with
  | (.ok frame, _) => frame.status != .errored
  | (.error _, _) => true

theorem accepted_of_acceptsWhole {limit : Nat}
    (accepts : acceptsWhole setting limit callee args loc s = true) :
    ∀ frame v, callWhole setting limit callee args loc s = (.ok frame, v) →
      frame.status ≠ .errored := by
  intro frame v done
  simpa [acceptsWhole, done] using accepts

/-- A function of numbers, called with a text and with a number. -/
def textSource : String :=
  "function f(a: Number) \x7b return a; \x7d\n" ++
    "f(\"a\");\n" ++
    "f(2);\n"

/-- A number or a text. -/
def numberOrText : List Ty := [.union [.int, .string]]

/-- Computes whether a call in the session between the entry calls of a unit can be compared. -/
def comparable (setting : Setting) (callee : String) (args : List Ty) (loc : Location)
    (s : Session) : Bool :=
  s.stack.isEmpty && allGround setting.hierarchy args &&
    (combinations args).all (fun choice => (s.cache.pending? (Cache.keyOf callee choice)).isNone) &&
    acceptsWhole setting 1 callee args loc s

/-- Where the call stands. -/
def behindEntries : Location := ⟨"texts.tpr", 4, 0⟩

/-- When a call with a text has been rejected, a number or a text is rejected once, from the cache or
    by looking up. -/
theorem split_errors_eq_texts :
    ∃ unit s wideRet wideBody t narrowRet narrowBody u,
      compile textSource "texts.tpr" = .ok unit ∧
      Visits (unit.setting {}) unit.program.entries s ∧
      callWithin (unit.setting {}) 2 "f" numberOrText behindEntries Body.start s =
        (.ok (wideRet, wideBody), t) ∧
      callWithin (unit.setting {}) 1 "f" numberOrText behindEntries Body.start s =
        (.ok (narrowRet, narrowBody), u) ∧
      erroredCases wideBody.children = erroredCases narrowBody.children ∧
      (erroredCases wideBody.children).length = 1 := by
  obtain ⟨unit, compiled, computed⟩ := exists_of_any
    (show (compile textSource "texts.tpr").toOption.any (fun unit => unit.isWellFormed &&
      (unit.program.entries.all (fun e => allGround unit.hierarchy (Expr.allTypes e.args)) &&
        (secondSession? unit).any fun s =>
          comparable (unit.setting {}) "f" numberOrText behindEntries s &&
            ((erroredWithin? (unit.setting {}) 2 "f" numberOrText behindEntries s).any
                (·.length == 1) &&
              (erroredWithin? (unit.setting {}) 1 "f" numberOrText behindEntries s).isSome))) =
      true by decide +kernel)
  simp only [Bool.and_eq_true, Option.any_eq_true, List.all_eq_true, beq_iff_eq,
    Option.isSome_iff_exists, comparable, List.isEmpty_iff, Option.isNone_iff_eq_none] at computed
  obtain ⟨checked, entries, s, second, ⟨⟨⟨empty, ground⟩, free⟩, accepts⟩,
    ⟨errored, foundWide, one⟩, errored', foundNarrow⟩ := computed
  have wellFormed := wellFormed_of_compile compiled checked {}
  have visits := visits_of_secondSession? second
  obtain ⟨wideRet, wideBody, t, wideDone, rfl⟩ := exists_of_erroredWithin? foundWide
  obtain ⟨narrowRet, narrowBody, u, narrowDone, rfl⟩ := exists_of_erroredWithin? foundNarrow
  obtain ⟨split, whole, added, added', same⟩ := split_errors_eq (unit.setting {}) wellFormed
    unit.program.entries (fun e member => allGround_iff.1 (entries e member)) s visits "f"
    behindEntries numberOrText (allGround_iff.1 ground) (by simp [empty]) free 2 1 (by decide)
    Body.start wideBody narrowBody wideRet narrowRet t u wideDone narrowDone
    (fun _ => accepted_of_acceptsWhole accepts)
  refine ⟨unit, s, wideRet, wideBody, t, narrowRet, narrowBody, u, compiled, visits, wideDone,
    narrowDone, ?_, one⟩
  rw [added, added']
  exact same

/-- A unit with a class that is named like a type variable. -/
def shadowedSource : String :=
  "class T \x7b \x7d\n" ++
    "function g(a: Number) \x7b return a; \x7d\n" ++
    "function f<T extends Int>(x: T) \x7b let y: T = 1.5; return g(y); \x7d\n" ++
    "f(1);\n" ++
    "g(2);\n"

/-- A number or an instance of the class. -/
def numberOrInstance : List Ty := [.union [.int, .concrete "T" []]]

/-- A type variable that gets out of its function has the key of the class that is named like it: what
    dispatch made of the variable stands for the class as long as the call is split, and not if the
    choices of members are looked up. -/
theorem split_errors_differ :
    ∃ unit s wideRet wideBody t narrowRet narrowBody u,
      compile shadowedSource "texts.tpr" = .ok unit ∧
      Visits (unit.setting {}) unit.program.entries s ∧ s.stack = [] ∧
      (∀ type ∈ numberOrInstance, type.ground unit.hierarchy = true) ∧
      (∀ choice ∈ combinations numberOrInstance,
        s.cache.pending? (Cache.keyOf "g" choice) = none) ∧
      callWithin (unit.setting {}) 2 "g" numberOrInstance behindEntries Body.start s =
        (.ok (wideRet, wideBody), t) ∧
      callWithin (unit.setting {}) 1 "g" numberOrInstance behindEntries Body.start s =
        (.ok (narrowRet, narrowBody), u) ∧
      (∀ frame v, callWhole (unit.setting {}) 1 "g" numberOrInstance behindEntries s =
        (.ok frame, v) → frame.status ≠ .errored) ∧
      erroredCases wideBody.children ≠ erroredCases narrowBody.children := by
  obtain ⟨unit, compiled, computed⟩ := exists_of_any
    (show (compile shadowedSource "texts.tpr").toOption.any (fun unit =>
      (secondSession? unit).any fun s =>
        comparable (unit.setting {}) "g" numberOrInstance behindEntries s &&
          ((erroredWithin? (unit.setting {}) 2 "g" numberOrInstance behindEntries s).any
              (·.length == 0) &&
            (erroredWithin? (unit.setting {}) 1 "g" numberOrInstance behindEntries s).any
              (·.length == 1))) = true by decide +kernel)
  simp only [Bool.and_eq_true, Option.any_eq_true, List.all_eq_true, beq_iff_eq, comparable,
    List.isEmpty_iff, Option.isNone_iff_eq_none] at computed
  obtain ⟨s, second, ⟨⟨⟨empty, ground⟩, free⟩, accepts⟩, ⟨errored, foundWide, none⟩, errored',
    foundNarrow, one⟩ := computed
  obtain ⟨wideRet, wideBody, t, wideDone, rfl⟩ := exists_of_erroredWithin? foundWide
  obtain ⟨narrowRet, narrowBody, u, narrowDone, rfl⟩ := exists_of_erroredWithin? foundNarrow
  refine ⟨unit, s, wideRet, wideBody, t, narrowRet, narrowBody, u, compiled,
    visits_of_secondSession? second, empty, allGround_iff.1 ground, free, wideDone, narrowDone,
    accepted_of_acceptsWhole accepts, fun same => ?_⟩
  rw [same, one] at none
  cases none

end Examples

end Multimethod.Inference
