import Multimethod.Proofs.Environment.Declared
import Multimethod.Proofs.Inference.Heads
import Multimethod.Proofs.Inference.Watching

/-!
# A declared name holds what it was declared with

A value is converted when it is assigned to a declared name, tests only narrow, and where paths meet
their types are joined. So the name holds its declared type wherever control gets to, unless it is
declared anew or set by a loop with something else, paths that meet do not agree, or the head of a
loop is raised further.
-/

namespace Multimethod.Inference

open Dispatch Environment Multimethod.Lattice

/-- Whether what happens agrees with the type with which a name is declared: what it is declared
    with anew, and what a loop sets it to, is below that type, and where paths meet the type bounds
    the name on all of them. An environment may be raised if the name keeps its type, or holds the
    declared one even so. -/
def Event.Agrees (h : Hierarchy) (name : String) : Event → Prop
  | reach _ => True
  | declare env target type =>
      target = name → ∀ d ∈ env.declaredHere? name, isSubtype h type d = true
  | iterate env target element =>
      target = name → ∀ d ∈ env.declaredHere? name, isSubtype h element d = true
  | meet flows =>
      ∀ flow ∈ flows, ∀ env ∈ flow, ∀ d ∈ env.declaredHere? name,
        ∀ other ∈ flows, ∀ env' ∈ other, env'.Within h name d
  | raise env next => next.typeHere? name = env.typeHere? name ∨ next.Typed h name

/-- Whether an environment is the scope of a method inside of another one, with well-formed types,
    in which a name holds what it was declared with. -/
structure TypedScope (setting : Setting) (outer : Option Environment) (name : String)
    (env : Environment) : Prop where
  of : env.Of setting.Ground
  kind : env.kind = .method
  parent : env.parent = outer
  typed : env.Typed setting.hierarchy name

/-- What is watched: that a name holds what it was declared with. -/
def typedWatch (setting : Setting) (outer : Option Environment) (name : String) : Watch where
  clear := Event.Agrees setting.hierarchy name
  good := TypedScope setting outer name
  kind := setting.Ground
  known := Session.Of setting.Ground

variable {setting : Setting} {outer : Option Environment} {name : String} {env next : Environment}
  {context : BodyContext} {body : Body} {s : Session} {room : Nat}

/-! ## What happens to the scope of a method -/

/-- The type that a name was declared with is well-formed. -/
theorem TypedScope.ground_declared (scope : TypedScope setting outer name env) :
    ∀ d ∈ env.declaredHere? name, setting.Ground d := by
  intro d member
  obtain ⟨x, found, declared⟩ := Option.bind_eq_some_iff.1 member
  exact (scope.of.here _ (Assoc.mem_of_find? found)).2 d declared

/-- In the scope of a method, what it declares is what the innermost scope declares. -/
theorem TypedScope.declared_eq (scope : TypedScope setting outer name env) (target : String) :
    (env.lookupLocal target).bind (·.declared) = env.declaredHere? target := by
  unfold lookupLocal
  rw [scope.kind]
  rfl

theorem TypedScope.raise (scope : TypedScope setting outer name env) (of : next.Of setting.Ground)
    (same : SameScope env next)
    (agrees : next.typeHere? name = env.typeHere? name ∨ next.Typed setting.hierarchy name) :
    TypedScope setting outer name next where
  of := of
  kind := same.kind.trans scope.kind
  parent := same.parent.trans scope.parent
  typed := scope.typed.raise same agrees

/-- A condition narrows only. -/
theorem TypedScope.narrow (wellFormed : setting.WellFormed) {test : Expr}
    (ofTest : ∀ t ∈ test.types, setting.Ground t) (truthy : Bool)
    (scope : TypedScope setting outer name env) :
    ∀ next ∈ env.narrow setting.hierarchy test truthy, TypedScope setting outer name next := by
  have ordered := wellFormed.declared.ordered
  have closed := wellFormed.closed
  have narrowed : ∀ next ∈ env.narrow setting.hierarchy test truthy,
      next.Of setting.Ground ∧ Refined setting.hierarchy name env next := forall_mem_narrow
    (fun t member middle subject truthy ⟨of, refined⟩ next reached => by
      have groundTest := ofTest t (Expr.mem_types_of_mem_tests member)
      exact ⟨of_narrowName closed of groundTest truthy next reached,
        refined.narrowName ordered scope.ground_declared (fun _ _ => of.lookup) groundTest subject
          truthy next reached⟩)
    (fun a b ⟨ofA, refinedA⟩ ⟨ofB, refinedB⟩ => ⟨ofA.merge closed ofB, refinedA.merge ordered
      (groundHere_of ofA) (groundHere_of ofB) scope.ground_declared refinedB⟩)
    ⟨scope.of, .refl env, scope.typed⟩
  intro next reached
  obtain ⟨of, refined⟩ := narrowed next reached
  exact ⟨of, refined.kind.trans scope.kind, refined.parent.trans scope.parent, refined.typed⟩

/-- An assigned value is below the type that the name is declared with from then on. -/
theorem TypedScope.assign (wellFormed : setting.WellFormed)
    (scope : TypedScope setting outer name env) (target : String) {value : Ty}
    (ofValue : setting.Ground value) {declared : Option Ty}
    (written : ∀ type ∈ declared, setting.Ground type ∧
      Event.Agrees setting.hierarchy name (.declare env target type))
    (below : ∀ d ∈ declared.or ((env.lookupLocal target).bind (·.declared)),
      isSubtype setting.hierarchy value d = true) :
    TypedScope setting outer name (env.update target value .assigned
      (declared.or ((env.lookupLocal target).bind (·.declared)))) := by
  rw [scope.declared_eq] at below ⊢
  have ofDeclared : ∀ d ∈ declared.or (env.declaredHere? target), setting.Ground d := by
    intro d member
    rw [Option.mem_def, Option.or_eq_some_iff] at member
    rcases member with new | ⟨-, held⟩
    · exact (written d new).1
    · rw [← scope.declared_eq] at held
      exact scope.of.declared held
  refine ⟨scope.of.update ofValue _ ofDeclared, scope.kind, scope.parent, ?_⟩
  refine scope.typed.update (fun same d member => ?_) _
  subst same
  rw [Option.mem_def, Option.or_eq_some_iff] at member
  rcases member with held | ⟨-, member⟩
  · -- the declared type stays, and a new one, to which the value is converted, is below it
    cases declared with
    | none => exact below d held
    | some type =>
        obtain ⟨ground, agrees⟩ := written type rfl
        exact isSubtype_trans wellFormed.declared.ordered ofValue ground
          (scope.ground_declared d held) (below type rfl) (agrees rfl d held)
  · exact below d member

theorem TypedScope.iterate (scope : TypedScope setting outer name env) {target : String}
    {element : Ty} (ofElement : setting.Ground element)
    (agrees : Event.Agrees setting.hierarchy name (.iterate env target element)) :
    TypedScope setting outer name (env.update target element .assigned none) where
  of := scope.of.update ofElement _ (by simp)
  kind := scope.kind
  parent := scope.parent
  typed := scope.typed.update (fun same d member => agrees same d (by simpa using member)) _

/-- Where paths meet, a declared type comes from one of them, and bounds the name on all. -/
theorem TypedScope.meet (wellFormed : setting.WellFormed) {flows : List Flow}
    (scopes : ∀ flow ∈ flows, ∀ env ∈ flow, TypedScope setting outer name env)
    (agrees : Event.Agrees setting.hierarchy name (.meet flows)) :
    ∀ env ∈ mergeFlows setting.hierarchy flows, TypedScope setting outer name env := by
  have ordered := wellFormed.declared.ordered
  let types : Ty → Prop := fun d => ∃ flow ∈ flows, ∃ env ∈ flow, d ∈ env.declaredHere? name
  have ground : ∀ d, types d → setting.Ground d := by
    rintro d ⟨flow, among, env, here, member⟩
    exact (scopes flow among env here).ground_declared d member
  have merged : ∀ env ∈ mergeFlows setting.hierarchy flows,
      (env.Of setting.Ground ∧ env.kind = .method ∧ env.parent = outer) ∧
        env.Meets setting.hierarchy name types := forall_mem_mergeFlows
    (fun a b ⟨⟨ofA, kind, parent⟩, meetsA⟩ ⟨⟨ofB, _, _⟩, meetsB⟩ =>
      ⟨⟨ofA.merge wellFormed.closed ofB, kind, parent⟩,
        meetsA.merge ordered (groundHere_of ofA) (groundHere_of ofB) ground meetsB⟩)
    (fun flow among env here => by
      have scope := scopes flow among env here
      refine ⟨⟨scope.of, scope.kind, scope.parent⟩, fun d member => ?_, ?_⟩
      · exact ⟨flow, among, env, here, member⟩
      · rintro d ⟨other, there, env', reached, member⟩
        exact agrees other there env' reached d member flow among env here)
  intro env reached
  obtain ⟨⟨of, kind, parent⟩, meets⟩ := merged env reached
  exact ⟨of, kind, parent, meets.typed⟩

/-- Each single thing that happens keeps a name to its declared type if it agrees with it. -/
theorem stable_typedWatch (wellFormed : setting.WellFormed) (outer : Option Environment)
    (name : String) : (typedWatch setting outer name).Stable setting where
  closed := wellFormed.closed
  of _ scope := scope.of
  narrow _ truthy _ ofTest scope := scope.narrow wellFormed ofTest truthy
  convert _ _ call loc ofValue ofTarget :=
    convertChecked_isSubtype wellFormed.declared.ordered ofValue ofTarget call loc
  assign _ target _ _ scope ofValue written below :=
    scope.assign wellFormed target ofValue written below
  iterate _ _ _ scope ofElement agrees := scope.iterate ofElement agrees
  meet _ scopes agrees := TypedScope.meet wellFormed scopes agrees
  widen env histories threshold scope taken agrees :=
    scope.raise (of_widenAll wellFormed.closed scope.of taken threshold).1
      (sameScope_widenAll _ env histories threshold) agrees
  top env _ scope agrees :=
    scope.raise (of_topDivergent wellFormed.closed scope.of env) (sameScope_topDivergent env _)
      agrees

/-! ## Executing a body -/

/-- Whether the execution of statements begins in the scope of a method: no name is declared yet,
    there has been no jump, and all types are well-formed. -/
structure MethodStart (setting : Setting) (context : BodyContext) (stmts : List Stmt)
    (env : Environment) (body : Body) (s : Session) : Prop where
  expected : ∀ d ∈ context.expected, setting.Ground d
  types : ∀ t ∈ Stmt.allTypes stmts, setting.Ground t
  kind : env.kind = .method
  undeclared : env.Undeclared
  env : env.Of setting.Ground
  breaks : body.breaks = []
  continues : body.continues = []
  body : body.Of setting.Ground
  session : s.Of setting.Ground

/-- In the scope of a method, wherever control gets to in the execution of its body, also in the
    passes over a loop that are made on a copy, a name that is declared with a type holds a type
    below it. This is so as long as what has happened before agrees with it: the name is not
    declared anew with a type that is not below, and no loop sets it to one; where paths meet, what
    the name is declared with on one of them bounds it on all of them; and at the head of a loop,
    neither widening nor the limit of passes has raised the name further. -/
theorem declared_name_typed (wellFormed : setting.WellFormed) {stmts : List Stmt}
    (start : MethodStart setting context stmts env body s) :
    let traced := traceBlock setting (interpret setting room) context stmts env
    traced.run = execBlock setting (interpret setting room) context stmts env ∧
      ∀ name before reached after, traced.events body s = before ++ .reach reached :: after →
        (∀ event ∈ before, event.Agrees setting.hierarchy name) →
        ∀ x declared, reached.lookup name = some x → x.declared = some declared →
          isSubtype setting.hierarchy x.type declared = true := by
  refine ⟨run_traceBlock stmts env, ?_⟩
  intro name before reached after listed agree x declared seen has
  have scope : TypedScope setting env.parent name env := by
    refine ⟨start.env, start.kind, rfl, fun d member => ?_⟩
    rw [start.undeclared.here] at member
    cases member
  have keeps := (stable_typedWatch wellFormed env.parent name).keeps_traceBlock
    (answering_interpret wellFormed.closed room) start.expected stmts start.types scope
  have along := (keeps body s ⟨start.body, by simp [start.breaks], by simp [start.continues]⟩
    start.session).1
  rw [listed] at along
  have typed : TypedScope setting env.parent name reached := along.good agree
  rw [Environment.lookup_eq, Option.or_eq_some_iff] at seen
  rcases seen with here | ⟨-, further⟩
  · exact typed.typed declared (Option.bind_eq_some_iff.2 ⟨x, here, has⟩) x.type
      (typeHere?_eq_some.2 ⟨x, here, rfl⟩)
  · obtain ⟨scope, inside, further⟩ := Option.bind_eq_some_iff.1 further
    rw [start.undeclared.outer scope (typed.parent ▸ inside) name x further] at has
    cases has

/-- Global variables are not declared with a type. -/
theorem undeclared_globalEnvironment (bindings : List GlobalBinding) :
    (globalEnvironment bindings).Undeclared :=
  (undeclared_create (by simp) .global).of_sameScope <|
    sameScope_foldl (fun env => env)
      (fun env (b : GlobalBinding) => sameScope_update env b.name b.type _) bindings _

/-- The execution of the body of a method begins like this. -/
theorem methodStart_of_match (wellFormed : setting.WellFormed)
    (globals : setting.globals.Undeclared) {found : Match} (of : Match.Of setting.Ground found)
    {args : List Ty} (ofArgs : ∀ a ∈ args, setting.Ground a) {stmts : List Stmt}
    (has : stmts ∈ found.method.body) (ofBody : body.Of setting.Ground)
    (ofSession : s.Of setting.Ground) :
    MethodStart setting ⟨declaredReturn found, false⟩ stmts (methodEnvironment setting found args)
      { body with returns := .bottom, breaks := [], continues := [] } s := by
  have created : SameScope (.create (some setting.globals) .method)
      (methodEnvironment setting found args) :=
    (sameScope_foldl (fun env => env) (fun env (v : TypeVar) => sameScope_update env v.name _ _)
      found.method.typeParams _).trans
      (sameScope_foldl (fun env => env)
        (fun env (pair : Param × Ty) => sameScope_update env pair.1.name _ _) _ _)
  exact {
    expected := of.returns
    types := of.method.body stmts has
    env := of_methodEnvironment wellFormed.closed of ofArgs
    kind := created.kind
    undeclared := (undeclared_create (by simpa using globals) .method).of_sameScope created
    body := ⟨ofBody.children, wellFormed.closed.bottom, by simp, by simp⟩
    breaks := rfl
    continues := rfl
    session := ofSession }

/-! ## Bodies of given programs -/

instance (h : Hierarchy) (name : String) (bound : Ty) (env : Environment) :
    Decidable (env.Within h name bound) :=
  inferInstanceAs (Decidable (∀ t ∈ env.typeHere? name, isSubtype h t bound = true))

instance (h : Hierarchy) (name : String) (env : Environment) : Decidable (env.Typed h name) :=
  inferInstanceAs (Decidable (∀ d ∈ env.declaredHere? name, env.Within h name d))

/-- Computes whether what happens agrees with the declared type of a name. -/
def Event.agrees (h : Hierarchy) (name : String) : Event → Bool
  | reach _ => true
  | declare env target type =>
      target != name || (env.declaredHere? name).all fun d => isSubtype h type d
  | iterate env target element =>
      target != name || (env.declaredHere? name).all fun d => isSubtype h element d
  | meet flows =>
      flows.all fun flow => flow.all fun env => (env.declaredHere? name).all fun d =>
        flows.all fun other => other.all fun env' => decide (env'.Within h name d)
  | raise _ next => decide (next.Typed h name)

theorem Event.agrees_of_computed {h : Hierarchy} {event : Event}
    (computed : event.agrees h name = true) : event.Agrees h name := by
  cases event with
  | reach env => trivial
  | declare env target type =>
      simp only [agrees, Bool.or_eq_true, bne_iff_ne, ne_eq, Option.all_eq_true] at computed
      exact fun same => computed.resolve_left (absurd same)
  | iterate env target element =>
      simp only [agrees, Bool.or_eq_true, bne_iff_ne, ne_eq, Option.all_eq_true] at computed
      exact fun same => computed.resolve_left (absurd same)
  | meet flows =>
      simp only [agrees, List.all_eq_true, Option.all_eq_true, decide_eq_true_eq] at computed
      exact computed
  | raise env next => exact .inr (of_decide_eq_true computed)

namespace Examples

/-- What happens in the body of a method without type variables. -/
def bodyEvents (setting : Setting) (m : Method) (args : List Ty) : List Event :=
  let traced := traceBlock setting (interpret setting 99)
    ⟨declaredReturn ⟨m, [], .full⟩, false⟩ (m.body.getD [])
    (methodEnvironment setting ⟨m, [], .full⟩ args)
  traced.events Body.start (Session.start setting.options)

/-- Where the execution of the body of a method begins. -/
abbrev BodyStart (setting : Setting) (m : Method) (args : List Ty) : Prop :=
  MethodStart setting ⟨declaredReturn ⟨m, [], .full⟩, false⟩ (m.body.getD [])
    (methodEnvironment setting ⟨m, [], .full⟩ args) Body.start (Session.start setting.options)

theorem bodyStart_of_wellFormed {unit : CompiledUnit} {options : Options} {m : Method}
    {args : List Ty} (wellFormed : (unit.setting options).WellFormed)
    (member : m ∈ unit.table.methods) (has : m.body.isSome = true)
    (ground : Ty.allGround unit.hierarchy args = true) :
    BodyStart (unit.setting options) m args := by
  obtain ⟨stmts, body⟩ := Option.isSome_iff_exists.1 has
  have of : Match.Of (unit.setting options).Ground ⟨m, [], .full⟩ :=
    ⟨by simp, (wellFormed.methods m member).of⟩
  have start := methodStart_of_match wellFormed (undeclared_globalEnvironment _) of
    (Ty.allGround_iff.1 ground) body wellFormed.closed.of_start.of (of_start (unit.setting options))
  rwa [BodyStart, body]

/-- A unit in which a declared name is assigned in a loop. -/
def assignedSource : String :=
  "function f(c, x) \x7b\n" ++
    "  let y: Number = 1;\n" ++
    "  while (c) \x7b y = x; \x7d\n" ++
    "  return y;\n" ++
    "\x7d\n"

/-- A unit in which a declared name takes a new type in each pass over a loop. -/
def climbingSource : String :=
  "class Box<out T> \x7b item: T; \x7d\n" ++
    "function f(c, x, p, q, r, s) \x7b\n" ++
    "  let y: Box<any> = x;\n" ++
    "  while (c) \x7b y = p; p = q; q = r; r = s; \x7d\n" ++
    "\x7d\n"

/-- A unit in which a declared name is declared anew with another type. -/
def redeclaredSource : String :=
  "function f(c, x) \x7b\n" ++
    "  let y: Number = 1;\n" ++
    "  if (c) \x7b let y: String = x; \x7d\n" ++
    "\x7d\n"

/-- A unit in which a loop sets a declared name to the elements of a vector. -/
def iteratedSource : String :=
  "function f(c, x) \x7b\n" ++
    "  let y: Number = 1;\n" ++
    "  for (const y of x) \x7b \x7d\n" ++
    "\x7d\n"

/-- A unit in which two paths meet that declare a name with different types. -/
def partedSource : String :=
  "function f(c, x) \x7b\n" ++
    "  if (c) \x7b let y: Int = 1; \x7d else \x7b let y: Number = x; \x7d\n" ++
    "\x7d\n"

/-- The types of the arguments of the function. -/
def assignedArgs : List Ty := [.bool, .abstract "Real"]

/-- A box of a type. -/
def boxOf (t : Ty) : Ty := .concrete "Box" [t]

/-- The types of the arguments of the function. -/
def climbingArgs : List Ty :=
  [.bool, boxOf .int, boxOf (.abstract "Integer"), boxOf (.abstract "Real"),
    boxOf (.abstract "Number"), boxOf .any]

/-- The types of the arguments of the function. -/
def textArgs : List Ty := [.bool, .string]

/-- The types of the arguments of the function. -/
def textsArgs : List Ty := [.bool, .concrete "Vector" [.string]]

/-- Whether the last thing that happens is that control gets to an environment in which `y` is
    declared, and all before agrees with its declared type. -/
def endsDeclared (h : Hierarchy) (events : List Event) : Bool :=
  match events.getLast? with
  | some (.reach env) =>
      events.dropLast.all (·.agrees h "y") && (env.lookup "y").any fun x => x.declared.isSome
  | _ => false

theorem exists_of_endsDeclared {h : Hierarchy} {events : List Event}
    (computed : endsDeclared h events = true) :
    ∃ before reached x d, events = before ++ [.reach reached] ∧
      (∀ event ∈ before, event.Agrees h "y") ∧
      reached.lookup "y" = some x ∧ x.declared = some d := by
  unfold endsDeclared at computed
  split at computed
  · rename_i env last
    simp only [Bool.and_eq_true, List.all_eq_true, Option.any_eq_true, Option.isSome_iff_exists]
      at computed
    obtain ⟨agree, x, seen, d, has⟩ := computed
    exact ⟨events.dropLast, env, x, d, (List.dropLast_append_getLast? _ last).symm,
      fun event member => Event.agrees_of_computed (agree event member), seen, has⟩
  · cases computed

theorem declared_name_typed_assigned :
    ∃ unit m before reached x d, compile assignedSource "assigned.tpr" = .ok unit ∧
      (unit.setting {}).WellFormed ∧ BodyStart (unit.setting {}) m assignedArgs ∧
      bodyEvents (unit.setting {}) m assignedArgs = before ++ [.reach reached] ∧
      (∀ event ∈ before, event.Agrees unit.hierarchy "y") ∧
      reached.lookup "y" = some x ∧ x.declared = some d ∧
      isSubtype unit.hierarchy x.type d = true := by
  obtain ⟨unit, compiled, computed⟩ := exists_of_any
    (show (compile assignedSource "assigned.tpr").toOption.any (fun unit => unit.isWellFormed &&
      (Ty.allGround unit.hierarchy assignedArgs &&
        (unit.table.methods.find? (·.name == "f")).any fun m => m.body.isSome &&
          endsDeclared unit.hierarchy (bodyEvents (unit.setting {}) m assignedArgs))) = true by
      decide +kernel)
  simp only [Bool.and_eq_true, Option.any_eq_true] at computed
  obtain ⟨checked, ground, m, found, has, ends⟩ := computed
  have wellFormed := wellFormed_of_compile compiled checked {}
  have start := bodyStart_of_wellFormed wellFormed (List.mem_of_find?_eq_some found) has ground
  obtain ⟨before, reached, x, d, events, agree, seen, declared⟩ := exists_of_endsDeclared ends
  exact ⟨unit, m, before, reached, x, d, compiled, wellFormed, start, events, agree, seen, declared,
    (declared_name_typed wellFormed start).2 "y" before reached [] events agree x d seen declared⟩

/-- Whether, in the body of the function of a unit, control gets to an environment in which `y` is
    declared with a type, and does not hold it. -/
def Exceeded (source : String) (options : Options) (args : List Ty) : Prop :=
  ∃ unit m reached x d, compile source "exceeded.tpr" = .ok unit ∧ m ∈ unit.table.methods ∧
    (unit.setting options).WellFormed ∧ BodyStart (unit.setting options) m args ∧
    .reach reached ∈ bodyEvents (unit.setting options) m args ∧
    reached.lookup "y" = some x ∧ x.declared = some d ∧ isSubtype unit.hierarchy x.type d = false

/-- Computes whether control gets to an environment in which `y` does not hold its declared type. -/
def exceeds (h : Hierarchy) : Event → Bool
  | .reach env => (env.lookup "y").any fun x => x.declared.any fun d => !isSubtype h x.type d
  | _ => false

theorem exceeded_of_computed {source : String} {options : Options} {args : List Ty}
    (computed : (compile source "exceeded.tpr").toOption.any (fun unit => unit.isWellFormed &&
      (Ty.allGround unit.hierarchy args &&
        (unit.table.methods.find? (·.name == "f")).any fun m => m.body.isSome &&
          (bodyEvents (unit.setting options) m args).any (exceeds unit.hierarchy))) = true) :
    Exceeded source options args := by
  obtain ⟨unit, compiled, computed⟩ := exists_of_any computed
  simp only [Bool.and_eq_true, Option.any_eq_true, List.any_eq_true] at computed
  obtain ⟨checked, ground, m, found, has, event, happens, exceeds⟩ := computed
  have wellFormed := wellFormed_of_compile compiled checked options
  have member := List.mem_of_find?_eq_some found
  cases event with
  | reach env =>
      simp only [Examples.exceeds, Option.any_eq_true, Bool.not_eq_true'] at exceeds
      obtain ⟨x, seen, d, declared, exceeds⟩ := exceeds
      exact ⟨unit, m, env, x, d, compiled, member, wellFormed,
        bodyStart_of_wellFormed wellFormed member has ground, happens, seen, declared, exceeds⟩
  | _ => cases exceeds

/-- At the head of a loop a declared name is raised further than its declared type: to the top when
    it has taken too many types, and when the limit of passes is reached. It also loses its declared
    type where it is declared anew with another one, set by a loop to the elements of a vector, and
    where paths meet that declare it differently. -/
theorem declared_name_exceeded :
    (Exceeded climbingSource {} climbingArgs ∧
      Exceeded assignedSource { maxFixpointIterations := 1 } assignedArgs) ∧
    Exceeded redeclaredSource {} textArgs ∧ Exceeded iteratedSource {} textsArgs ∧
      Exceeded partedSource {} assignedArgs :=
  ⟨⟨exceeded_of_computed (by decide +kernel), exceeded_of_computed (by decide +kernel)⟩,
    exceeded_of_computed (by decide +kernel), exceeded_of_computed (by decide +kernel),
    exceeded_of_computed (by decide +kernel)⟩

end Examples

end Multimethod.Inference
