import Multimethod.Proofs.Inference.Entry
import Multimethod.Proofs.Inference.Memo
import Multimethod.Proofs.Ty.Cases

/-!
# Broadening the arguments of an entry call

The tree of an entry call reports what its dispatch cases report on their own, as long as the
unions are split and every case has an expansion. A broader call has the cases of the narrower
one and more, so it reports no less. Past the limit of the split it still reports every choice
of members that dispatch rejects.
-/

namespace Multimethod.Inference

open Dispatch Multimethod.Lattice Multimethod.Ty

variable {setting : Setting} {scope : String → List Ty → Bool} {call : Caller}
  {callee name : String} {args : List Ty} {loc : Location} {s s' t : Session} {tree : Frame}
  {body : Body} {held : String → Option CacheEntry}

/-! ## What the cases of a call report -/

/-- Whether one of the cases reports `r` when it is analysed on its own. -/
def ReportedByCase (setting : Setting) (scope : String → List Ty → Bool) (callee : String)
    (loc : Location) (cases : List (List Ty)) (r : DiagnosticKind × String × String) : Prop :=
  ∃ types ∈ cases, ∃ frame, Expands setting scope callee types loc frame ∧ r ∈ frame.records

/-- From a faithful session with no open call, a call is answered as it expands on its own. -/
theorem interpretCall_alike (apart : KeysApart scope) {frame expansion : Frame}
    (faithful : Faithful .records setting scope [] [] held s t)
    (expands : Expands setting scope callee args loc expansion)
    (done : interpretCall setting callee args { callee := callee, loc := loc } s =
      (.ok frame, s')) :
    frame.Alike .records expansion ∧ Faithful .records setting scope [] [] held s' t := by
  obtain ⟨room, u, u', expanded⟩ := expands
  have outside : Faithful .records setting scope [] [] held s u := { faithful with inStep := trivial }
  obtain ⟨alike, kept⟩ := tracks_interpret apart (.inl View.samePlace_records) trivial _ room [] []
    held callee args loc s u frame expansion s' u' outside done expanded
  exact ⟨alike, { kept with inStep := trivial }⟩

theorem mem_records_iff (apart : KeysApart scope) {frame : Frame}
    (faithful : Faithful .records setting scope [] [] held s t)
    (expansion : ∃ g, Expands setting scope callee args loc g)
    (done : interpretCall setting callee args { callee := callee, loc := loc } s =
      (.ok frame, s')) (r : DiagnosticKind × String × String) :
    r ∈ frame.records ↔ ReportedByCase setting scope callee loc [args] r := by
  simp only [ReportedByCase, List.mem_singleton, exists_eq_left]
  constructor
  · intro member
    obtain ⟨g, expands⟩ := expansion
    have alike := (interpretCall_alike apart faithful expands done).1
    exact ⟨g, expands, alike.records ▸ member⟩
  · rintro ⟨g, expands, member⟩
    have alike := (interpretCall_alike apart faithful expands done).1
    exact alike.records ▸ member

theorem reports_callCases (apart : KeysApart scope) {cases : List (List Ty)} {result ret : Ty}
    {accepted accepted' : Bool} {body' : Body} (faithful : Faithful .records setting scope [] [] held s t)
    (expand : ∀ types ∈ cases, ∃ g, Expands setting scope callee types loc g)
    (done : callCases setting (interpretCall setting) callee { callee := callee, loc := loc }
      cases result accepted body s = (.ok ((ret, accepted'), body'), s')) :
    body'.errors = body.errors ∧
      ∀ r, r ∈ body'.children.flatMap Frame.records ↔
        r ∈ body.children.flatMap Frame.records ∨
          ReportedByCase setting scope callee loc cases r := by
  induction cases generalizing result accepted body s with
  | nil =>
      cases done
      exact ⟨rfl, fun r => by simp [ReportedByCase]⟩
  | cons args rest ih =>
      rw [callCases] at done
      obtain ⟨frame, _, t, called, following⟩ := Walk.bind_eq_ok done
      obtain ⟨first, rfl⟩ := Walk.call_eq_ok called
      obtain ⟨_, _, _, attached, remaining⟩ := Walk.bind_eq_ok following
      cases attached
      have expansion := expand args List.mem_cons_self
      have own := mem_records_iff apart faithful expansion first
      obtain ⟨g, expands⟩ := expansion
      have kept := (interpretCall_alike apart faithful expands first).2
      obtain ⟨errors, children⟩ := ih kept
        (fun types member => expand types (List.mem_cons_of_mem _ member)) remaining
      refine ⟨errors, fun r => ?_⟩
      rw [children r, List.flatMap_append, List.mem_append, List.flatMap_singleton, own r,
        or_assoc]
      simp [ReportedByCase]

/-! ## What an entry call reports -/

/-- Within the limit of the split, an entry call reports what its choices of members report on
    their own. -/
theorem mem_records_of_function (apart : KeysApart scope)
    (normal : ∀ t ∈ args, t.isNormalUnion = true) (valued : args.any Ty.isBottom = false)
    (within : caseCount args ≤ setting.options.maxUnionSplit)
    (found : destination setting callee loc = .function name)
    (expand : ∀ types ∈ combinations args, ∃ g, Expands setting scope name types loc g)
    (done : runEvaluated setting (literalCall callee args loc) args Body.start
      (Session.start setting.options) = (.ok tree, s')) (r : DiagnosticKind × String × String) :
    r ∈ tree.records ↔ ReportedByCase setting scope name loc (combinations args) r := by
  have faithful := (truthful_start .records setting scope).faithful (fun _ => none) s'
  rw [← splitCases_of_le normal within] at expand ⊢
  rcases runEvaluated_eq_ok valued found done with
    ⟨inner, single, called, errors, children⟩ | ⟨ret, body, called, errors, children⟩
  · rw [single] at expand ⊢
    rw [← mem_records_iff apart faithful (expand args (List.mem_singleton_self args)) called r,
      Frame.records_eq, errors, children, rejectedCases_of_le within, List.append_nil,
      ← Frame.records_eq]
  · obtain ⟨accepted, behind, analysed, errors', children'⟩ := callFunction_eq_ok called
    obtain ⟨nothing, reported⟩ := reports_callCases apart faithful expand analysed
    rw [Frame.records_eq, errors, errors', nothing, children, children',
      rejectedCases_of_le within, List.append_nil, List.mem_append, reported r]
    simp [Body.start]

/-! ## Past the limit of the split -/

/-- Whether dispatch finds methods for a call. -/
def accepts (setting : Setting) (callee : String) (args : List Ty) : Bool :=
  match lookup setting.hierarchy setting.table callee args with
  | .matched _ => true
  | _ => false

theorem exists_matched_of_accepts (accepted : accepts setting callee args = true) :
    ∃ found, lookup setting.hierarchy setting.table callee args = .matched found := by
  unfold accepts at accepted
  split at accepted
  · rename_i found matched
    exact ⟨found, matched⟩
  · cases accepted

theorem status_of_dispatchPass {found : List Match} {site : CallSite} {frame : Frame}
    (matched : lookup setting.hierarchy setting.table callee args = .matched found)
    (done : dispatchPass setting call callee args site s = (.ok frame, s')) :
    frame.status = .resolved := by
  unfold dispatchPass at done
  rw [matched] at done
  obtain ⟨⟨ret, body⟩, t, _, done⟩ := bind_eq_ok done
  cases done
  rfl

/-- In a new session, a call that dispatch accepts as a whole is accepted. -/
theorem status_of_interpretCall {found : List Match} {frame : Frame}
    (matched : lookup setting.hierarchy setting.table callee args = .matched found)
    (done : interpretCall setting callee args { callee := callee, loc := loc }
      (Session.start setting.options) = (.ok frame, s')) : frame.status = .resolved := by
  unfold interpretCall interpret at done
  obtain ⟨_, _, got, done⟩ := bind_eq_ok done
  cases got
  rw [widenRecursiveArgs_of_same fun a member => by cases member] at done
  generalize setting.options.maxCallDepth.toNat = room at done
  cases room with
  | zero => cases done
  | succ room =>
      obtain ⟨_, t, entered, done⟩ := bind_eq_ok done
      obtain ⟨⟨frame, converged, dependsOn⟩, u, popped, done⟩ := bind_eq_ok done
      obtain ⟨_, _, stored, done⟩ := bind_eq_ok done
      cases done
      obtain ⟨_, analysed, -⟩ := popOnExit_eq_ok popped
      obtain ⟨⟨result, rested⟩, _, passes, rest⟩ := bind_eq_ok analysed
      obtain ⟨first, _, passed, settled⟩ := bind_eq_ok passes
      obtain ⟨_, _, _, rest⟩ := bind_eq_ok rest
      cases rest
      exact status_of_settle (fun _ _ _ done => status_of_dispatchPass matched done)
        (status_of_dispatchPass matched passed) settled

/-- Past the limit, an entry call that dispatch accepts as a whole holds a frame for every choice
    of members that dispatch rejects. -/
theorem unionCaseFrames_subset_children {found : List Match}
    (valued : args.any Ty.isBottom = false)
    (exceeds : setting.options.maxUnionSplit < caseCount args)
    (target : destination setting callee loc = .function name)
    (matched : lookup setting.hierarchy setting.table name args = .matched found)
    (done : runEvaluated setting (literalCall callee args loc) args Body.start
      (Session.start setting.options) = (.ok tree, s')) :
    unionCaseFrames setting name args { callee := name, loc := loc } ⊆ tree.children := by
  rcases runEvaluated_eq_ok valued target done with
    ⟨inner, -, called, -, children⟩ | ⟨ret, body, called, -, children⟩
  · have accepted : (inner.status != .errored) = true := by
      rw [status_of_interpretCall matched called]
      rfl
    rw [children, accepted, rejectedCases_of_lt exceeds]
    exact List.subset_append_right _ _
  · obtain ⟨accepted, behind, analysed, -, children'⟩ := callFunction_eq_ok called
    rw [splitCases_of_lt exceeds, callCases] at analysed
    obtain ⟨inner, _, v, lifted, following⟩ := Walk.bind_eq_ok analysed
    obtain ⟨first, rfl⟩ := Walk.call_eq_ok lifted
    obtain ⟨_, _, _, attached, finished⟩ := Walk.bind_eq_ok following
    cases attached
    cases finished
    have accepted : (inner.status != .errored) = true := by
      rw [status_of_interpretCall matched first]
      rfl
    rw [children, children', accepted, Bool.true_and, rejectedCases_of_lt exceeds]
    exact List.subset_append_right _ _

theorem unionCaseFrames_subset {narrow broad : List Ty} (broader : Broader narrow broad)
    (site : CallSite) :
    unionCaseFrames setting name narrow site ⊆ unionCaseFrames setting name broad site := by
  intro frame member
  obtain ⟨choice, chosen, rejected⟩ := List.mem_filterMap.1 member
  exact List.mem_filterMap.2 ⟨choice, combinations_subset broader chosen, rejected⟩

/-! ## Broader arguments -/

/-- What an entry call reports, the call with broader arguments reports as well: all of it
    within the limit of the split if every case has an expansion, and past it the rejections of
    dispatch if dispatch accepts the unions as a whole. -/
theorem broadening_keeps_records (setting : Setting) (scope : String → List Ty → Bool)
    (apart : KeysApart scope) (callee : String) (loc : Location) (narrow broad : List Ty)
    (broader : Broader narrow broad) (normal : ∀ t ∈ narrow ++ broad, t.isNormalUnion = true)
    (narrowTree broadTree : Frame) (found : entryTree? setting callee narrow loc = some narrowTree)
    (found' : entryTree? setting callee broad loc = some broadTree) :
    match destination setting callee loc with
    | .function name =>
        (caseCount broad ≤ setting.options.maxUnionSplit →
          (∀ types ∈ combinations broad, ∃ frame, Expands setting scope name types loc frame) →
            ∀ r ∈ narrowTree.records, r ∈ broadTree.records) ∧
        (setting.options.maxUnionSplit < caseCount broad →
          (∃ found, lookup setting.hierarchy setting.table name broad = .matched found) →
            ∀ r ∈ narrowTree.records,
              (∃ frame ∈ unionCaseFrames setting name narrow { callee := name, loc := loc },
                r ∈ frame.records) → r ∈ broadTree.records)
    | .answer _ _ => ∀ r ∈ narrowTree.records, r ∈ broadTree.records
    | .misuse => True := by
  obtain ⟨_, done⟩ := runEvaluated_of_entryTree? found
  obtain ⟨_, done'⟩ := runEvaluated_of_entryTree? found'
  have normalNarrow : ∀ t ∈ narrow, t.isNormalUnion = true := fun t member =>
    normal t (List.mem_append_left _ member)
  have normalBroad : ∀ t ∈ broad, t.isNormalUnion = true := fun t member =>
    normal t (List.mem_append_right _ member)
  -- a call that is never reached reports nothing, so both calls may be taken as reached
  cases bottom : narrow.any Ty.isBottom with
  | true =>
      have nothing := records_of_bottom bottom done
      split
      · simp [nothing]
      · simp [nothing]
      · trivial
  | false =>
      have valued : broad.any Ty.isBottom = false := by
        by_contra bottom'
        rw [any_isBottom_of_broader broader normalNarrow (Bool.not_eq_false _ ▸ bottom')] at bottom
        cases bottom
      split
      · rename_i name target
        refine ⟨fun within expand r member => ?_, fun exceeds accepted r _ rejected => ?_⟩
        · have within' := Nat.le_trans (caseCount_le broader normalNarrow) within
          have sub := combinations_subset broader
          rw [mem_records_of_function apart normalNarrow bottom within' target
            (fun types chosen => expand types (sub chosen)) done] at member
          rw [mem_records_of_function apart normalBroad valued within target expand done']
          obtain ⟨types, chosen, frame, expands, member⟩ := member
          exact ⟨types, sub chosen, frame, expands, member⟩
        · obtain ⟨_, matched⟩ := accepted
          obtain ⟨frame, rejection, member⟩ := rejected
          have child := unionCaseFrames_subset_children valued exceeds target matched done'
            (unionCaseFrames_subset broader _ rejection)
          rw [Frame.records_eq]
          exact List.mem_append_right _ (List.mem_flatMap.2 ⟨frame, child, member⟩)
      · rename_i target
        intro r member
        rw [records_of_answer bottom target done] at member
        rw [records_of_answer valued target done']
        exact member
      · trivial

/-! ## Small programs -/

namespace Examples

/-- A place in the programs. -/
def line (n : Nat) : Location := ⟨"main", n, 0⟩

/-- One of the two types of the programs. -/
def typeA : Ty := .concrete "A" []

/-- The other one. -/
def typeB : Ty := .concrete "B" []

/-- Either of them. -/
def either : Ty := .union [typeA, typeB]

/-- A program over the two types. -/
def program (methods : List Method) (globals : List GlobalBinding) (options : Options) :
    Setting where
  hierarchy := ⟨[⟨"B", false, some "Any", [], none, none⟩,
    ⟨"A", false, some "Any", [], none, none⟩, TypeDecl.any]⟩
  table := .ofMethods methods
  globals := globalEnvironment globals
  options := options

/-- A method without a body. -/
def signature (n : Nat) (name : String) (param : Ty) : Method :=
  ⟨name, [⟨"x", param⟩], [], none, none, none, line n⟩

/-- A method that calls, and at the end returns the value of an expression. -/
def method (n : Nat) (name : String) (param : Ty) (calls : List Expr) (value : Expr) : Method :=
  ⟨name, [⟨"x", param⟩], [], none,
    some (calls.map (.expr · (line n)) ++ [.ret (some value) (line n)]), none, line n⟩

/-- A call, as it stands in the method of that line. -/
def callAt (n : Nat) (name : String) (arg : Expr) : Expr := .call name [arg] (line n)

/-- A value of some type. -/
def value (type : Ty) : Expr := .literal type none (line 0)

/-- The parameter of a method. -/
def param : Expr := .name "x" (line 0)

/-- `f` calls itself with its own argument, and `g`, which takes one of the two types only. -/
def repeating (limit : Nat) : Setting :=
  program
    [signature 1 "g" typeA, method 2 "f" .any [callAt 2 "f" param] (callAt 2 "g" param)] []
    { maxUnionSplit := limit }

/-- Within the limit, with a call that recurs, and past it. -/
theorem broadening_keeps_records_repeating :
    (∃ narrowTree broadTree,
      entryTree? (repeating 2) "f" [typeB] (line 3) = some narrowTree ∧
      entryTree? (repeating 2) "f" [either] (line 3) = some broadTree ∧
      narrowTree.records = [(.noMatchingMethod, "no method matching g(::B)", "g(::B)")] ∧
      ∀ r ∈ narrowTree.records, r ∈ broadTree.records) ∧
    (∃ narrowTree broadTree,
      entryTree? (repeating 1) "g" [typeB] (line 3) = some narrowTree ∧
      entryTree? (repeating 1) "g" [either] (line 3) = some broadTree ∧
      narrowTree.records = [(.noMatchingMethod, "no method matching g(::B)", "g(::B)")] ∧
      ∀ r ∈ narrowTree.records, r ∈ broadTree.records) := by
  have broader : Broader [typeB] [either] := by simp [Broader, either, typeB, members]
  have normal : ∀ t ∈ [typeB] ++ [either], t.isNormalUnion = true := by decide +kernel
  refine ⟨?_, ?_⟩
  · obtain ⟨narrowTree, found, records⟩ := Option.map_eq_some_iff.1
      (show (entryTree? (repeating 2) "f" [typeB] (line 3)).map Frame.records =
        some [(.noMatchingMethod, "no method matching g(::B)", "g(::B)")] by decide +kernel)
    obtain ⟨broadTree, found'⟩ := Option.isSome_iff_exists.1
      (show (entryTree? (repeating 2) "f" [either] (line 3)).isSome = true by decide +kernel)
    have target : destination (repeating 2) "f" (line 3) = .function "f" := rfl
    have kept := broadening_keeps_records (repeating 2) (isPlainCall (repeating 2).hierarchy)
      (keysApart_isPlainCall _) "f" (line 3) [typeB] [either] broader normal narrowTree broadTree
      found found'
    rw [target] at kept
    have expanded : ∀ types ∈ combinations [either], hasExpansion (repeating 2)
        (isPlainCall (repeating 2).hierarchy) 2 "f" types (line 3) = true := by decide +kernel
    exact ⟨narrowTree, broadTree, found, found', records, kept.1 (by decide +kernel)
      fun types chosen => exists_expands_of_hasExpansion (expanded types chosen)⟩
  · obtain ⟨narrowTree, found, records⟩ := Option.map_eq_some_iff.1
      (show (entryTree? (repeating 1) "g" [typeB] (line 3)).map Frame.records =
        some [(.noMatchingMethod, "no method matching g(::B)", "g(::B)")] by decide +kernel)
    obtain ⟨broadTree, found'⟩ := Option.isSome_iff_exists.1
      (show (entryTree? (repeating 1) "g" [either] (line 3)).isSome = true by decide +kernel)
    have target : destination (repeating 1) "g" (line 3) = .function "g" := rfl
    have kept := broadening_keeps_records (repeating 1) (isPlainCall (repeating 1).hierarchy)
      (keysApart_isPlainCall _) "g" (line 3) [typeB] [either] broader normal narrowTree broadTree
      found found'
    rw [target] at kept
    have accepted : accepts (repeating 1) "g" [either] = true := by decide +kernel
    have rejected : (unionCaseFrames (repeating 1) "g" [typeB]
        { callee := "g", loc := line 3 }).flatMap Frame.records =
          [(.noMatchingMethod, "no method matching g(::B)", "g(::B)")] := by decide +kernel
    refine ⟨narrowTree, broadTree, found, found', records, fun r member => ?_⟩
    refine kept.2 (by decide +kernel) (exists_matched_of_accepts accepted) r member ?_
    refine List.mem_flatMap.1 ?_
    rw [rejected, ← records]
    exact member

/-- What the narrower of two entry calls reports and the broader one does not. -/
def lost (setting : Setting) (callee : String) (narrow broad : Ty) :
    Option (List (DiagnosticKind × String × String)) := do
  let narrowTree ← entryTree? setting callee [narrow] (line 9)
  let broadTree ← entryTree? setting callee [broad] (line 9)
  return narrowTree.records.filter fun r => !broadTree.records.contains r

/-- The union is past the limit, and as a whole it converts to what `f` returns. -/
def converting : Setting :=
  program [⟨"f", [⟨"x", .any⟩], [], some typeA, some [.ret (some param) (line 1)], none, line 1⟩]
    [] { maxUnionSplit := 1 }

/-- The union is past the limit, and as a whole it is rejected. -/
def rejecting : Setting :=
  program [signature 1 "f" .int] [] { maxUnionSplit := 1 }

/-- Under the call of `f` with the one type, the call of `g` with the other one is widened. -/
def roundabout : Setting :=
  program
    [method 1 "g" typeA [] (callAt 1 "f" (value typeB)), method 2 "f" .any [] (callAt 2 "g" param)]
    [] { wideningThreshold := 0 }

/-- Under the call of `f` with the one type, what that call returns is widened. -/
def alternating : Setting :=
  program
    [signature 1 "g" typeB, method 2 "f" typeA [callAt 2 "f" (value typeB)] (value typeA),
      method 3 "f" typeB [] (callAt 3 "g" (callAt 3 "f" (value typeA)))]
    [] { wideningThreshold := 0 }

/-- The calls of `g` for the two types have one key. -/
def sharing : Setting :=
  program
    [signature 1 "g" typeA, method 2 "f" typeA [] (callAt 2 "g" (value (.typeVar "C" typeA))),
      method 3 "f" typeB [] (callAt 3 "g" (value (.concrete "C" [])))] [] {}

/-- A global value is called. -/
def misusing : Setting :=
  program [] [⟨"f", typeA, line 1⟩] {}

/-- Broadening loses records in each of these programs. -/
theorem broadening_loses_records :
    Broader [typeB] [either] ∧ either.isNormalUnion = true ∧
    lost converting "f" typeB either = some [(.typeConversionFailure, "cannot convert B to A",
      "convert(::Type\x7bA\x7d, ::B)")] ∧
    lost rejecting "f" typeB either =
      some [(.noMatchingMethod, "no method matching f(::B)", "f(::B)")] ∧
    lost roundabout "f" typeB either =
      some [(.noMatchingMethod, "no method matching g(::B)", "g(::B)")] ∧
    lost alternating "f" typeB either =
      some [(.noMatchingMethod, "no method matching g(::A)", "g(::A)")] ∧
    lost sharing "f" typeB either =
      some [(.noMatchingMethod, "no method matching g(::C)", "g(::C)")] ∧
    lost misusing "f" typeB either =
      some [(.invalidBuiltinCall, "f::A is not callable", "f(::B)")] := by
  refine ⟨by simp [Broader, either, typeB, members], ?_, ?_, ?_, ?_, ?_, ?_, ?_⟩
  all_goals decide +kernel

end Examples

end Multimethod.Inference
