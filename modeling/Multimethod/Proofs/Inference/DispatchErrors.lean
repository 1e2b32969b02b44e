import Multimethod.Proofs.Inference.Broadening
import Multimethod.Proofs.Inference.KindsOfPrograms
import Multimethod.Proofs.Inference.Rejecting

/-!
# The errors of dispatch in a run

Below its root every call tree of a run is settled. What a diagnostic of dispatch says of its call
is read off the types of the call when it is first analysed, and is kept when the frame is rebuilt
for another call with the same key. So it is right as long as the names of types are proper.
-/

namespace Multimethod

open Multimethod.Lattice

theorem Lattice.structural_spelled {h : Hierarchy}
    (proper : ∀ d ∈ h.decls, isSpelled d.name = true) :
    Structural h fun t => t.spelled = true where
  bottom := rfl
  any := rfl
  union _ := Ty.allSpelled_iff
  args _ _ named := (Ty.spelled_concrete.1 named).2
  applied _ _ _ named others := Ty.spelled_concrete.2 ⟨(Ty.spelled_concrete.1 named).1, others⟩
  bound _ _ named := by
    rw [Ty.spelled, Bool.and_eq_true] at named
    exact named.2
  abstract name known := by
    obtain ⟨decl, declared⟩ := Option.isSome_iff_exists.1 known
    have same : decl.name = name := by simpa using List.find?_some declared
    exact same ▸ proper decl (List.mem_of_find?_eq_some declared)

namespace Inference

open Dispatch Multimethod.Frame

/-- Whether the names of all types that a program declares or names can be told from the marks that
    structure ids, as identifiers can. -/
structure ProperNames (h : Hierarchy) (table : MethodTable) (globals : List GlobalBinding)
    (entries : List EntryCall) : Prop where
  declared : ∀ d ∈ h.decls, isSpelled d.name = true
  decls : ∀ d ∈ h.decls, ∀ t ∈ d.types, t.spelled = true
  methods : ∀ m ∈ table.methods, ∀ t ∈ m.types, t.spelled = true
  globals : ∀ binding ∈ globals, binding.type.spelled = true
  entries : EntriesOf (fun t => t.spelled = true) entries

variable {h : Hierarchy} {table : MethodTable} {globals : List GlobalBinding}
  {entries : List EntryCall} {options : Options} {file : String} {result : RunResult}

theorem ProperNames.closed (proper : ProperNames h table globals entries) (options : Options) :
    Closed ⟨h, table, globalEnvironment globals, options⟩ fun t => t.spelled = true :=
  closed_of_spelled (structural_spelled proper.declared) proper.declared
    (fun _ spelled _ named => Ty.spelled_concrete.2 ⟨spelled, named⟩) proper.decls proper.methods
    (of_globalEnvironment proper.globals)

/-- Below their roots the call trees of a run are settled, and diagnostics show the right calls if the
    program has proper names. -/
theorem settled_outcomes (ran : run ⟨h, table, globalEnvironment globals, options⟩ file entries =
    .ok result) : ∀ outcome ∈ result.outcomes,
      Outcome.Settled (ProperNames h table globals entries) outcome := by
  by_cases proper : ProperNames h table globals entries
  · exact settled_of_run (proper.closed options) (fun _ => keysRender_spelled) proper.entries ran
  · have bound : (globalEnvironment globals).Of fun _ => True :=
      of_globalEnvironment fun _ _ => trivial
    exact settled_of_run (closed_true bound.distinct) (fun named => absurd named proper)
      (fun _ _ _ _ => trivial) ran

/-- A frame below the root of a call tree that has a diagnostic of dispatch has nothing else: it is
    errored, without children, returns the bottom if no method matches and the top if several do, and
    the diagnostic is at the call site of the frame. If the names of types are proper then it shows the
    call of the frame. All calls of the tree are finished. -/
theorem dispatch_error_alone (h : Hierarchy) (table : MethodTable) (globals : List GlobalBinding)
    (options : Options) (file : String) (entries : List EntryCall) (result : RunResult)
    (ran : run ⟨h, table, globalEnvironment globals, options⟩ file entries = .ok result)
    (root : Frame) (member : .frame root ∈ result.outcomes) :
    root.origin = .entry ∧
      (∀ frame, Within frame root → frame.status = .resolved ∨ frame.status = .errored) ∧
      ∀ child ∈ root.children, ∀ frame, Within frame child →
        frame.origin ≠ .entry ∧
        ∀ d ∈ frame.errors, d.IsDispatch →
          frame.errors = [d] ∧ frame.status = .errored ∧ frame.children = [] ∧
            frame.ret = (if d.kind = .noMatchingMethod then .bottom else .any) ∧
            d.loc = frame.site.loc ∧
            (ProperNames h table globals entries → d.call = frame.site.render frame.args) := by
  obtain ⟨atRoot, ended, below⟩ := settled_outcomes ran _ member
  refine ⟨atRoot, fun frame within => ?_, fun child among frame within => ?_⟩
  · rcases within_iff.1 within with rfl | ⟨child, among, further⟩
    · exact ended
    · exact (below child among frame further).ended
  · have settled := below child among frame within
    refine ⟨settled.inner, fun d reported dispatch => ?_⟩
    have rejected := settled.rejected d reported dispatch
    exact ⟨rejected.alone, rejected.status, rejected.children, rejected.ret, rejected.loc,
      rejected.call⟩

namespace Examples

/-- A hierarchy of types without parents, parameters and fields. -/
def flatHierarchy (names : List String) : Hierarchy :=
  ⟨names.map (fun name => ⟨name, false, some "Any", [], none, none⟩) ++ [TypeDecl.any]⟩

/-- The entry call of a function without parameters. -/
def entryOf (n : Nat) (name : String) : EntryCall := ⟨name, [], line n⟩

/-- `f` takes one of two types, and `g` calls it twice with the other one. -/
def rejectedTwice : List Method :=
  [signature 1 "f" typeA,
    ⟨"g", [], [], none, some [.expr (callAt 2 "f" (value typeB)) (line 2),
      .expr (callAt 3 "f" (value typeB)) (line 3)], none, line 2⟩]

/-- Whether an outcome has a frame below its root that was rebuilt and has an error. -/
def hasMovedError : Outcome → Bool
  | .frame root => root.children.any fun child =>
      child.origin == .cached && child.errors.any (·.kind == .noMatchingMethod)
  | .failure .. => false

theorem exists_of_hasMovedError {outcomes : List Outcome}
    (moved : outcomes.any hasMovedError = true) :
    ∃ root, .frame root ∈ outcomes ∧ ∃ child ∈ root.children, child.origin = .cached ∧
      ∃ d ∈ child.errors, d.kind = .noMatchingMethod := by
  obtain ⟨outcome, member, moved⟩ := List.any_eq_true.1 moved
  cases outcome with
  | failure => cases moved
  | frame root =>
      simp only [hasMovedError, List.any_eq_true, Bool.and_eq_true, beq_iff_eq] at moved
      obtain ⟨child, among, cached, d, reported, kind⟩ := moved
      exact ⟨root, member, child, among, cached, d, reported, kind⟩

/-- The second call of `f` is answered from the cache, and its error is that of its own frame. -/
theorem dispatch_error_alone_rejectedTwice :
    ∃ result root, run ⟨flatHierarchy ["A", "B"], .ofMethods rejectedTwice, globalEnvironment [], {}⟩
        "main" [entryOf 4 "g"] = .ok result ∧ .frame root ∈ result.outcomes ∧
      ∃ child ∈ root.children, child.origin = .cached ∧ ∃ d ∈ child.errors,
        d.IsDispatch ∧ child.errors = [d] ∧ child.status = .errored ∧ child.children = [] ∧
          child.ret = .bottom ∧ d.loc = child.site.loc ∧ d.call = child.site.render child.args := by
  obtain ⟨result, ran, moved⟩ := exists_of_any
    (show (run ⟨flatHierarchy ["A", "B"], .ofMethods rejectedTwice, globalEnvironment [], {}⟩
      "main" [entryOf 4 "g"]).toOption.any (·.outcomes.any hasMovedError) = true by decide +kernel)
  obtain ⟨root, member, child, among, cached, d, reported, kind⟩ := exists_of_hasMovedError moved
  have proper : ProperNames (flatHierarchy ["A", "B"]) (.ofMethods rejectedTwice) []
      [entryOf 4 "g"] := by
    refine ⟨by decide +kernel, by decide +kernel, by decide +kernel, by simp, ?_⟩
    simp [EntriesOf, entryOf, Expr.allTypes]
  obtain ⟨-, -, below⟩ := dispatch_error_alone _ _ _ _ _ _ result ran root member
  obtain ⟨alone, errored, childless, ret, loc, call⟩ :=
    (below child among child (.self _)).2 d reported (.inl kind)
  rw [if_pos kind] at ret
  exact ⟨result, root, ran, member, child, among, cached, d, reported, .inl kind, alone, errored,
    childless, ret, loc, call proper⟩

/-- `f` takes one of two types, and `g` calls it with both of them and then with a value of a type that
    is named like the list of the two. -/
def confusing : List Method :=
  [signature 1 "f" typeA,
    ⟨"g", [], [], none, some [.expr (.call "f" [value typeA, value typeB] (line 2)) (line 2),
      .expr (callAt 3 "f" (value (.concrete "A, B" []))) (line 3)], none, line 2⟩]

/-- Whether an outcome has a frame below its root with a diagnostic that shows another call. -/
def showsOtherCall : Outcome → Bool
  | .frame root => root.children.any fun child => child.errors.any fun d =>
      d.kind == .noMatchingMethod && d.call != child.site.render child.args
  | .failure .. => false

/-- Two calls may have one key if a type is named like a list of types: what dispatch found wrong with
    the first one is then shown at the place of the second one. -/
theorem dispatch_error_shows_other_call :
    ∃ result root, run ⟨flatHierarchy ["A, B", "B", "A"], .ofMethods confusing,
        globalEnvironment [], {}⟩ "main" [entryOf 4 "g"] = .ok result ∧
      .frame root ∈ result.outcomes ∧ ∃ child ∈ root.children, ∃ d ∈ child.errors,
        d.IsDispatch ∧ d.call ≠ child.site.render child.args := by
  obtain ⟨result, ran, shown⟩ := exists_of_any
    (show (run ⟨flatHierarchy ["A, B", "B", "A"], .ofMethods confusing, globalEnvironment [], {}⟩
      "main" [entryOf 4 "g"]).toOption.any (·.outcomes.any showsOtherCall) = true by
        decide +kernel)
  obtain ⟨outcome, member, shown⟩ := List.any_eq_true.1 shown
  cases outcome with
  | failure => cases shown
  | frame root =>
      simp only [showsOtherCall, List.any_eq_true, Bool.and_eq_true, beq_iff_eq, bne_iff_ne] at shown
      obtain ⟨child, among, d, reported, kind, other⟩ := shown
      exact ⟨result, root, ran, member, child, among, d, reported, .inl kind, other⟩

end Examples

end Inference

end Multimethod
