import Multimethod.Inference.Run
import Multimethod.Proofs.Inference.Lockstep
import Multimethod.Proofs.Ty.Cases

/-!
# Entry calls

What the run of a single entry call with arguments of given types comes to: where the call goes,
what it analyses when it gets to a generic function, and what it reports when it does not.
-/

namespace Multimethod.Inference

open Dispatch Multimethod.Lattice

/-- An entry call whose arguments have the given types. -/
def literalCall (callee : String) (args : List Ty) (loc : Location) : EntryCall :=
  ⟨callee, args.map (.literal · none loc), loc⟩

/-- The tree of an entry call on a fresh cache, unless a limit ends it. -/
def entryTree? (setting : Setting) (callee : String) (args : List Ty) (loc : Location) :
    Option Frame :=
  match run setting loc.file [literalCall callee args loc] with
  | .ok ⟨_, [.frame tree], _⟩ => some tree
  | _ => none

/-- What becomes of the call of a name. -/
inductive Destination where
  /-- A generic function is called. -/
  | function (name : String)
  /-- The answer does not depend on the arguments. -/
  | answer (type : Ty) (errors : List Diagnostic)
  /-- The name holds a value that cannot be called. -/
  | misuse

/-- What becomes of an entry call. -/
def destination (setting : Setting) (callee : String) (loc : Location) : Destination :=
  match callRoute setting setting.globals callee with
  | .generic => .function callee
  | .undefined => .answer .bottom [Diagnostic.unbound callee loc]
  | .value .any => .answer .any []
  | .value (.concrete "Function" _) => .answer .any []
  | .value (.concrete "Type" (.concrete name _ :: _)) =>
      if setting.table.has name then .function name else .misuse
  | .value _ => .misuse

variable {setting : Setting} {call : Caller} {callee name : String} {args : List Ty}
  {loc : Location} {s s' : Session} {tree : Frame} {body : Body}

/-! ## The entry call of a run -/

theorem Walk.bind_of_ok {α β : Type} {m : Walk α} {f : α → Walk β} {x : α} {body' : Body}
    (done : m body s = (.ok (x, body'), s')) : (m >>= f) body s = f x body' s' := by
  change ExceptT.bindCont (fun p : α × Body => f p.1 p.2) (m body s).1 (m body s).2 = _
  rw [done]
  rfl

theorem Walk.bind_eq_ok {α β : Type} {m : Walk α} {f : α → Walk β} {y : β} {body' : Body}
    (done : (m >>= f) body s = (.ok (y, body'), s')) :
    ∃ x next r, m body s = (.ok (x, next), r) ∧ f x next r = (.ok (y, body'), s') := by
  obtain ⟨⟨x, next⟩, r, first, done⟩ := Inference.bind_eq_ok done
  exact ⟨x, next, r, first, done⟩

theorem Walk.call_eq_ok {m : Infer Frame} {frame : Frame} {body' : Body}
    (done : (liftM m : Walk Frame) body s = (.ok (frame, body'), s')) :
    m s = (.ok frame, s') ∧ body' = body := by
  obtain ⟨_, _, ran, done⟩ := Inference.bind_eq_ok done
  cases done
  exact ⟨ran, rfl⟩

/-- Literals are read without a call. -/
theorem evalAll_literals (env : Environment) (args : List Ty) (loc : Location) (body : Body)
    (s : Session) :
    evalAll setting call (args.map (.literal · none loc)) env body s = (.ok (args, body), s) := by
  induction args with
  | nil =>
      rw [List.map_nil, evalAll]
      rfl
  | cons t args ih =>
      rw [List.map_cons, evalAll, evalExpr]
      rw [Walk.bind_of_ok rfl, Walk.bind_of_ok ih]
      rfl

theorem catchLimit_eq_inl {α : Type} {inner : Infer α} {x : α}
    (done : catchLimit inner s = (.ok (.inl x), s')) : inner s = (.ok x, s') := by
  unfold catchLimit at done
  split at done
  · rename_i value r ran
    cases done
    exact ran
  · cases done
  · cases done

/-- The tree of an entry call is that of the evaluated call in a new session. -/
theorem runEvaluated_of_entryTree? (found : entryTree? setting callee args loc = some tree) :
    ∃ s', runEvaluated setting (literalCall callee args loc) args Body.start
      (Session.start setting.options) = (.ok tree, s') := by
  unfold entryTree? at found
  split at found
  · rename_i file t entries ran
    cases found
    have ran' : ∃ s', runEntries setting loc.file [literalCall callee args loc]
        (Session.start setting.options) = (.ok ⟨file, [.frame tree], entries⟩, s') :=
      ⟨_, Prod.ext ran rfl⟩
    obtain ⟨_, done⟩ := ran'
    obtain ⟨_, _, cleared, done⟩ := bind_eq_ok done
    cases cleared
    obtain ⟨outcomes, _, entered, done⟩ := bind_eq_ok done
    obtain ⟨_, _, counted, done⟩ := bind_eq_ok done
    cases done
    rw [List.mapM_cons] at entered
    obtain ⟨_, _, entry, rest⟩ := bind_eq_ok entered
    cases rest
    obtain ⟨evaluated, _, read, entry⟩ := bind_eq_ok entry
    have literals : catchLimit ((evalAll setting (interpretCall setting)
        (literalCall callee args loc).args setting.globals).run Body.start)
          (Session.start setting.options) =
        (.ok (.inl (args, Body.start)), Session.start setting.options) := by
      unfold catchLimit
      rw [StateT.run, literalCall, evalAll_literals]
    cases literals.symm.trans read
    obtain ⟨result, _, finished, entry⟩ := bind_eq_ok entry
    cases result with
    | inl frame =>
        cases entry
        exact ⟨_, catchLimit_eq_inl finished⟩
    | inr message =>
        obtain ⟨_, _, _, entry⟩ := bind_eq_ok entry
        cases entry
  · cases found

/-! ## Where an entry call goes -/

theorem resolveCall_of_function (found : destination setting callee loc = .function name) :
    resolveCall setting call callee loc args setting.globals =
      callFunction setting call name args { callee := name, loc := loc } := by
  unfold destination at found
  unfold resolveCall
  split at found
  · rename_i route
    cases found
    rw [route]
  · cases found
  · cases found
  · cases found
  · rename_i route
    split at found
    · rename_i present
      cases found
      rw [route]
      simp only [callValue, present, if_true]
    · cases found
  · cases found

theorem resolveCall_of_answer {type : Ty} {errors : List Diagnostic}
    (found : destination setting callee loc = .answer type errors) :
    resolveCall setting call callee loc args setting.globals body s =
      (.ok (type, { body with errors := body.errors ++ errors }), s) := by
  unfold destination at found
  unfold resolveCall
  split at found
  · cases found
  · rename_i route
    cases found
    rw [route]
    rfl
  · rename_i route
    cases found
    rw [route]
    simp only [callValue, List.append_nil]
    rfl
  · rename_i route
    cases found
    rw [route]
    simp only [callValue, List.append_nil]
    rfl
  · split at found <;> cases found
  · cases found

theorem lookupLocal_of_lookup {env : Environment} (unbound : env.lookup callee = none) :
    env.lookupLocal callee = none := by
  obtain ⟨bindings, parent, kind⟩ := env
  unfold Environment.lookup at unbound
  unfold Environment.lookupLocal
  cases kind with
  | global => rfl
  | method =>
      dsimp only
      cases here : bindings.find? callee with
      | none => rfl
      | some binding =>
          rw [here] at unbound
          cases unbound

/-- An entry frame that stands for its dispatch case calls the function of its own name. -/
theorem destination_of_isOwnCase
    (own : isOwnCase setting (literalCall callee args loc) args = true) :
    destination setting callee loc = .function callee := by
  simp only [isOwnCase, literalCall, Bool.and_eq_true, Option.isNone_iff_eq_none] at own
  have route : callRoute setting setting.globals callee = .generic := by
    unfold callRoute
    rw [lookupLocal_of_lookup own.2, if_pos own.1.2]
  unfold destination
  rw [route]

/-- The frames that a call adds for the choices of members that dispatch rejects. -/
def rejectedCases (setting : Setting) (callee : String) (args : List Ty) (loc : Location)
    (accepted : Bool) : List Frame :=
  if accepted && exceedsSplit setting args then
    unionCaseFrames setting callee args { callee := callee, loc := loc }
  else []

theorem rejectedCases_of_le {accepted : Bool}
    (within : Ty.caseCount args ≤ setting.options.maxUnionSplit) :
    rejectedCases setting callee args loc accepted = [] := by
  have fits : exceedsSplit setting args = false := by simp [exceedsSplit, within]
  rw [rejectedCases, fits, Bool.and_false, if_neg Bool.false_ne_true]

theorem rejectedCases_of_lt (exceeds : setting.options.maxUnionSplit < Ty.caseCount args) :
    rejectedCases setting callee args loc true =
      unionCaseFrames setting callee args { callee := callee, loc := loc } := by
  simp [rejectedCases, exceedsSplit, exceeds]

theorem callFunction_eq_ok {ret : Ty} {body' : Body}
    (done : callFunction setting call callee args { callee := callee, loc := loc } body s =
      (.ok (ret, body'), s')) :
    ∃ accepted behind,
      callCases setting call callee { callee := callee, loc := loc }
        (Ty.splitCases args setting.options.maxUnionSplit) .bottom true body s =
          (.ok ((ret, accepted), behind), s') ∧
      body'.errors = behind.errors ∧
      body'.children = behind.children ++ rejectedCases setting callee args loc accepted := by
  obtain ⟨⟨result, accepted⟩, behind, u, analysed, checked⟩ := Walk.bind_eq_ok done
  dsimp only at checked
  split at checked
  · rename_i past
    cases checked
    refine ⟨accepted, behind, analysed, rfl, ?_⟩
    rw [rejectedCases, if_pos past]
  · rename_i fits
    cases checked
    refine ⟨accepted, _, analysed, rfl, ?_⟩
    rw [rejectedCases, if_neg fits, List.append_nil]

/-- An entry call of a generic function is its only dispatch case, or calls the function in its
    body. -/
theorem runEvaluated_eq_ok (valued : args.any Ty.isBottom = false)
    (target : destination setting callee loc = .function name)
    (done : runEvaluated setting (literalCall callee args loc) args Body.start s =
      (.ok tree, s')) :
    (∃ inner, Ty.splitCases args setting.options.maxUnionSplit = [args] ∧
        interpretCall setting name args { callee := name, loc := loc } s = (.ok inner, s') ∧
        tree.errors = inner.errors ∧
        tree.children = inner.children ++
          rejectedCases setting name args loc (inner.status != .errored)) ∨
      ∃ ret body,
        callFunction setting (interpretCall setting) name args { callee := name, loc := loc }
          Body.start s = (.ok (ret, body), s') ∧
        tree.errors = body.errors ∧ tree.children = body.children := by
  unfold runEvaluated at done
  rw [if_neg (by simp [valued])] at done
  split at done
  · rename_i own
    left
    cases (destination_of_isOwnCase own).symm.trans target
    have single : (Ty.splitCases args setting.options.maxUnionSplit).length = 1 := by
      simp only [isOwnCase, Bool.and_eq_true, beq_iff_eq] at own
      exact own.1.1
    obtain ⟨inner, t, called, done⟩ := bind_eq_ok done
    cases done
    exact ⟨inner, Ty.splitCases_of_length_eq_one single, called, rfl, rfl⟩
  · right
    obtain ⟨⟨ret, body⟩, t, resolved, done⟩ := bind_eq_ok done
    cases done
    refine ⟨ret, body, ?_, rfl, rfl⟩
    rw [← resolveCall_of_function target]
    exact resolved

/-! ## Calls without dispatch -/

/-- A call with an argument that has no value reports nothing. -/
theorem records_of_bottom (bottom : args.any Ty.isBottom = true)
    (done : runEvaluated setting (literalCall callee args loc) args Body.start s =
      (.ok tree, s')) : tree.records = [] := by
  unfold runEvaluated at done
  rw [if_pos bottom] at done
  cases done
  simp [Frame.records_eq, entryFrame, Body.start]

theorem records_of_answer {type : Ty} {errors : List Diagnostic}
    (valued : args.any Ty.isBottom = false)
    (found : destination setting callee loc = .answer type errors)
    (done : runEvaluated setting (literalCall callee args loc) args Body.start s =
      (.ok tree, s')) : tree.records = errors.map Diagnostic.record := by
  have shared : isOwnCase setting (literalCall callee args loc) args = false := by
    cases own : isOwnCase setting (literalCall callee args loc) args with
    | false => rfl
    | true =>
        rw [destination_of_isOwnCase own] at found
        cases found
  unfold runEvaluated at done
  rw [if_neg (by simp [valued]), if_neg (by simp [shared])] at done
  obtain ⟨⟨ret, body⟩, t, resolved, done⟩ := bind_eq_ok done
  cases (resolveCall_of_answer found).symm.trans resolved
  cases done
  simp [Frame.records_eq, entryFrame, Body.start]

end Multimethod.Inference
