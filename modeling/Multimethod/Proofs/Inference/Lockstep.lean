import Multimethod.Inference.Dispatching
import Multimethod.Proofs.Frame
import Multimethod.Proofs.Inference.Loops

/-!
# Analysing a body with two callers

The analysis of a body asks its caller for every call that the body makes. Two callers whose
frames are always alike lead to bodies that are alike: the same types flow, and the same
diagnostics are reported as far as a view sees them. The callers may read and change their
sessions as long as they keep an invariant between the two.
-/

namespace Multimethod.Inference

open Dispatch Multimethod.Lattice

variable {α β γ : Type} {inv : Session → Session → Prop} {view : View}

/-- Whenever both computations give a result, the results are related and the invariant between
    the sessions is kept. -/
def Tracks (inv : Session → Session → Prop) (related : α → β → Prop) (m : Infer α)
    (n : Infer β) : Prop :=
  ∀ s t x y s' t', inv s t → m s = (.ok x, s') → n t = (.ok y, t') →
    related x y ∧ inv s' t'

theorem bind_eq_ok {m : Infer α} {f : α → Infer β} {s s' : Session} {y : β}
    (done : (m >>= f) s = (.ok y, s')) :
    ∃ x r, m s = (.ok x, r) ∧ f x r = (.ok y, s') := by
  change ExceptT.bindCont f (m s).1 (m s).2 = (.ok y, s') at done
  cases first : m s with
  | mk result r =>
      rw [first] at done
      cases result with
      | ok x => exact ⟨x, r, rfl, done⟩
      | error fault => cases done

theorem Tracks.pure {related : α → β → Prop} {x : α} {y : β} (same : related x y) :
    Tracks inv related (pure x) (pure y) := by
  rintro s t x' y' s' t' kept ⟨⟩ ⟨⟩
  exact ⟨same, kept⟩

theorem Tracks.bind {δ : Type} {related : α → β → Prop} {related' : γ → δ → Prop}
    {m : Infer α} {n : Infer β} {f : α → Infer γ} {g : β → Infer δ}
    (first : Tracks inv related m n)
    (next : ∀ x y, related x y → Tracks inv related' (f x) (g y)) :
    Tracks inv related' (m >>= f) (n >>= g) := by
  intro s t x y s' t' kept left right
  obtain ⟨p, r, left, left'⟩ := bind_eq_ok left
  obtain ⟨q, u, right, right'⟩ := bind_eq_ok right
  obtain ⟨same, kept⟩ := first s t p q r u kept left right
  exact next p q same r u x y s' t' kept left' right'

/-- Bodies in which the same types flow and, as far as a view sees, the same has been reported and
    returned. -/
structure Body.Alike (view : View) (b c : Body) : Prop where
  errors : view.sees → b.errors.map view.of = c.errors.map view.of
  children : view.sees → b.children.flatMap view.tree = c.children.flatMap view.tree
  returns : view.sees → b.returns = c.returns
  breaks : b.breaks = c.breaks
  continues : b.continues = c.continues

theorem Body.Alike.refl (b : Body) : Body.Alike view b b :=
  ⟨fun _ => rfl, fun _ => rfl, fun _ => rfl, rfl, rfl⟩

/-- From bodies that are alike, both computations give the same value and bodies that are
    alike again. -/
def Follows (view : View) (inv : Session → Session → Prop) (m n : Walk α) : Prop :=
  ∀ b c, Body.Alike view b c →
    Tracks inv (fun p q => p.1 = q.1 ∧ Body.Alike view p.2 q.2) (m b) (n c)

theorem Follows.pure (x : α) : Follows view inv (pure x) (pure x) := by
  intro b c alike
  exact Tracks.pure ⟨rfl, alike⟩

theorem Follows.bind {m n : Walk α} {f g : α → Walk β} (first : Follows view inv m n)
    (next : ∀ x, Follows view inv (f x) (g x)) : Follows view inv (m >>= f) (n >>= g) := by
  intro b c alike
  refine Tracks.bind (first b c alike) ?_
  rintro ⟨x, b'⟩ ⟨y, c'⟩ ⟨same, alike'⟩
  cases same
  exact next x b' c' alike'

theorem Follows.throw (fault fault' : Fault) :
    Follows view inv (throw fault : Walk α) (throw fault') := by
  intro b c _ s t x y s' t' _ left
  cases left

/-- A change of the body that keeps bodies alike. -/
theorem Follows.modify {f g : Body → Body}
    (keeps : ∀ b c, Body.Alike view b c → Body.Alike view (f b) (g c)) :
    Follows view inv (modify f : Walk Unit) (modify g) := by
  intro b c alike
  exact Tracks.pure ⟨rfl, keeps b c alike⟩

/-- What is read off a body may depend on everything that bodies which are alike share. -/
theorem Follows.read {f g : Body → Walk α}
    (keeps : ∀ b c, Body.Alike view b c → Follows view inv (f b) (g c)) :
    Follows view inv (get >>= f) (get >>= g) := by
  intro b c alike
  exact keeps b c alike b c alike

/-- Going on behind an arm that control may not get to. -/
theorem Follows.arm {flow : Flow} {f g : Environment → Walk α} {x : α} {k l : α → Walk β}
    (arm : ∀ env, Follows view inv (f env) (g env)) (next : ∀ a, Follows view inv (k a) (l a)) :
    Follows view inv
      (match flow with
        | some env => f env >>= k
        | none => Pure.pure x >>= k)
      (match flow with
        | some env => g env >>= l
        | none => Pure.pure x >>= l) := by
  cases flow with
  | some env => exact Follows.bind (arm env) next
  | none => exact Follows.bind (Follows.pure x) next

theorem follows_report {errors errors' : List Diagnostic}
    (same : view.sees → errors.map view.of = errors'.map view.of) :
    Follows view inv (report errors) (report errors') := by
  refine Follows.modify fun b c alike => { alike with errors := fun seen => ?_ }
  rw [List.map_append, List.map_append, alike.errors seen, same seen]

theorem follows_attach {frames frames' : List Frame}
    (same : view.sees → frames.flatMap view.tree = frames'.flatMap view.tree) :
    Follows view inv (attach frames) (attach frames') := by
  refine Follows.modify fun b c alike => { alike with children := fun seen => ?_ }
  rw [List.flatMap_append, List.flatMap_append, alike.children seen, same seen]

/-! ## Calls -/

/-- Two callers that answer every call with frames that are alike. -/
def CallersAlike (view : View) (inv : Session → Session → Prop) (call call' : Caller) : Prop :=
  ∀ callee args loc, Tracks inv (Frame.Alike view)
    (call callee args { callee := callee, loc := loc })
    (call' callee args { callee := callee, loc := loc })

section Walks

variable {setting : Setting} {call call' : Caller}

theorem follows_call (calls : CallersAlike view inv call call') {f g : Frame → Walk α}
    (callee : String) (args : List Ty) (loc : Location)
    (next : ∀ p q, Frame.Alike view p q → Follows view inv (f p) (g q)) :
    let site : CallSite := { callee := callee, loc := loc }
    Follows view inv (do f (← call callee args site)) (do g (← call' callee args site)) := by
  intro site b c alike
  have lifted : Tracks inv (fun p q => Frame.Alike view p.1 q.1 ∧ Body.Alike view p.2 q.2)
      (do pure (← call callee args site, b)) (do pure (← call' callee args site, c)) :=
    Tracks.bind (calls callee args loc) fun p q same => Tracks.pure ⟨same, alike⟩
  refine Tracks.bind lifted ?_
  rintro ⟨p, b'⟩ ⟨q, c'⟩ ⟨same, alike'⟩
  exact next p q same b' c' alike'

theorem follows_callCases (calls : CallersAlike view inv call call') (callee : String)
    (loc : Location) (cases : List (List Ty)) (result : Ty) (accepted : Bool) :
    let site : CallSite := { callee := callee, loc := loc }
    Follows view inv (callCases setting call callee site cases result accepted)
      (callCases setting call' callee site cases result accepted) := by
  intro site
  induction cases generalizing result accepted with
  | nil => exact Follows.pure (result, accepted)
  | cons args rest ih =>
      refine follows_call calls callee args loc fun p q same => ?_
      refine Follows.bind (follows_attach fun seen => by simp [same.tree seen]) fun _ => ?_
      rw [same.ret]
      simp only [bne, same.errored]
      exact ih _ _

theorem follows_callFunction (calls : CallersAlike view inv call call') (callee : String)
    (args : List Ty) (loc : Location) :
    let site : CallSite := { callee := callee, loc := loc }
    Follows view inv (callFunction setting call callee args site)
      (callFunction setting call' callee args site) := by
  intro site
  refine Follows.bind (follows_callCases calls callee loc _ _ _) ?_
  rintro ⟨result, accepted⟩
  dsimp only
  split
  · exact Follows.bind (follows_attach fun _ => rfl) fun _ => Follows.pure result
  · exact Follows.pure result

theorem follows_callValue (calls : CallersAlike view inv call call') (callee : String) (value : Ty)
    (args : List Ty) (loc : Location) :
    Follows view inv (callValue setting call callee value args loc)
      (callValue setting call' callee value args loc) := by
  unfold callValue
  have misuse : Follows view inv
      (do
        report [Diagnostic.builtinMisuse (renderCall callee none args)
          s!"{callee}::{value.render} is not callable" loc]
        pure Ty.bottom)
      (do
        report [Diagnostic.builtinMisuse (renderCall callee none args)
          s!"{callee}::{value.render} is not callable" loc]
        pure Ty.bottom) :=
    Follows.bind (follows_report fun _ => rfl) fun _ => Follows.pure Ty.bottom
  dsimp only
  split
  · exact Follows.pure Ty.any
  · exact Follows.pure Ty.any
  · split
    · exact follows_callFunction calls _ args loc
    · exact misuse
  · exact misuse

theorem follows_resolveCall (calls : CallersAlike view inv call call') (callee : String)
    (loc : Location) (args : List Ty) (env : Environment) :
    Follows view inv (resolveCall setting call callee loc args env)
      (resolveCall setting call' callee loc args env) := by
  unfold resolveCall
  cases callRoute setting env callee with
  | value type => exact follows_callValue calls callee type args loc
  | generic => exact follows_callFunction calls callee args loc
  | undefined => exact Follows.bind (follows_report fun _ => rfl) fun _ => Follows.pure Ty.bottom

/-! ## Expressions -/

theorem follows_checkCondition (type : Ty) (loc : Location) :
    Follows view inv (checkCondition setting type loc) (checkCondition setting type loc) := by
  unfold checkCondition
  split
  · exact follows_report fun _ => rfl
  · exact Follows.pure ()

theorem follows_evalName (env : Environment) (name : String) (loc : Location) :
    Follows view inv (evalName setting env name loc) (evalName setting env name loc) := by
  unfold evalName
  split
  · exact Follows.pure _
  · split
    · exact Follows.pure _
    · split
      · exact Follows.pure _
      · exact Follows.bind (follows_report fun _ => rfl) fun _ => Follows.pure Ty.bottom

mutual

theorem follows_evalExpr (calls : CallersAlike view inv call call') (expr : Expr)
    (env : Environment) :
    Follows view inv (evalExpr setting call expr env) (evalExpr setting call' expr env) := by
  match expr with
  | .literal type value loc =>
      rw [evalExpr, evalExpr]
      exact Follows.pure type
  | .name name loc =>
      rw [evalExpr, evalExpr]
      exact follows_evalName env name loc
  | .call callee args loc =>
      rw [evalExpr, evalExpr]
      refine Follows.bind (follows_evalAll calls args env) fun types => ?_
      split
      · exact Follows.pure Ty.bottom
      · exact follows_resolveCall calls callee loc types env
  | .field object field loc =>
      rw [evalExpr, evalExpr]
      refine Follows.bind (follows_evalExpr calls object env) fun type => ?_
      split
      · exact Follows.pure Ty.bottom
      · exact Follows.bind (follows_attach fun _ => rfl) fun _ => Follows.pure _
  | .isa subject test loc =>
      rw [evalExpr, evalExpr]
      exact Follows.bind (follows_evalExpr calls subject env) fun type => Follows.pure _
  | .logical op left right loc =>
      rw [evalExpr, evalExpr]
      refine Follows.bind (follows_evalExpr calls left env) fun type => ?_
      refine Follows.bind (follows_checkCondition type left.loc) fun _ => ?_
      split
      · exact Follows.pure Ty.bottom
      · cases env.narrow setting.hierarchy left (op == .and) with
        | none => exact Follows.pure Ty.bool
        | some rightEnv =>
            refine Follows.bind (follows_evalExpr calls right rightEnv) fun rightType => ?_
            refine Follows.bind (follows_checkCondition rightType right.loc) fun _ => ?_
            exact Follows.pure _
  | .conditional test consequent alternate loc =>
      rw [evalExpr, evalExpr]
      refine Follows.bind (follows_evalExpr calls test env) fun type => ?_
      refine Follows.bind (follows_checkCondition type test.loc) fun _ => ?_
      refine Follows.arm (follows_evalExpr calls consequent) fun first => ?_
      refine Follows.arm (follows_evalExpr calls alternate) fun second => ?_
      exact Follows.pure _
  | .vector elements loc =>
      rw [evalExpr, evalExpr]
      exact Follows.bind (follows_evalAll calls elements env) fun types => Follows.pure _

theorem follows_evalAll (calls : CallersAlike view inv call call') (exprs : List Expr)
    (env : Environment) :
    Follows view inv (evalAll setting call exprs env) (evalAll setting call' exprs env) := by
  match exprs with
  | [] =>
      rw [evalAll, evalAll]
      exact Follows.pure []
  | expr :: exprs =>
      rw [evalAll, evalAll]
      refine Follows.bind (follows_evalExpr calls expr env) fun type => ?_
      exact Follows.bind (follows_evalAll calls exprs env) fun types => Follows.pure _

end

theorem follows_evalCondition (calls : CallersAlike view inv call call') (expr : Expr)
    (env : Environment) :
    Follows view inv (evalCondition setting call expr env) (evalCondition setting call' expr env) := by
  refine Follows.bind (follows_evalExpr calls expr env) fun type => ?_
  exact Follows.bind (follows_checkCondition type expr.loc) fun _ => Follows.pure type

/-! ## Statements -/

theorem follows_convertDeclared (value : Ty) (declared : Option Ty) (loc : Location) :
    Follows view inv (convertDeclared setting value declared loc)
      (convertDeclared setting value declared loc) := by
  unfold convertDeclared
  cases declared with
  | none => exact Follows.pure value
  | some target =>
      dsimp only
      split
      · exact Follows.pure value
      · exact Follows.bind (follows_report fun _ => rfl) fun _ => Follows.pure _

theorem follows_addReturn (context : BodyContext) (value : Ty) (loc : Location) :
    Follows view inv (addReturn setting context value loc) (addReturn setting context value loc) := by
  refine Follows.bind (follows_convertDeclared value context.expected loc) fun result => ?_
  exact Follows.modify fun b c alike => { alike with returns := fun seen => by rw [alike.returns seen] }

theorem follows_execAssign (env : Environment) (target : String) (value : Ty)
    (declared : Option Ty) (loc : Location) :
    Follows view inv (execAssign setting env target value declared loc)
      (execAssign setting env target value declared loc) :=
  Follows.bind (follows_convertDeclared value _ loc) fun _ => Follows.pure _

theorem follows_execJump (context : BodyContext) (jump : Jump) (env : Environment)
    (loc : Location) :
    Follows view inv (execJump context jump env loc) (execJump context jump env loc) := by
  unfold execJump
  split
  · exact Follows.throw _ _
  · cases jump with
    | leave =>
        refine Follows.bind (Follows.modify fun b c alike => ?_) fun _ => Follows.pure none
        exact { alike with breaks := by rw [alike.breaks] }
    | next =>
        refine Follows.bind (Follows.modify fun b c alike => ?_) fun _ => Follows.pure none
        exact { alike with continues := by rw [alike.continues] }

theorem follows_onScratch {pass pass' : Walk Flow} (same : Follows view inv pass pass') :
    Follows view inv (onScratch pass) (onScratch pass') := by
  intro b c alike
  have lifted : Tracks inv (fun p q => p.1.1 = q.1.1 ∧ Body.Alike view p.2 q.2)
      (do pure (← pass.run Body.start, b)) (do pure (← pass'.run Body.start, c)) := by
    refine Tracks.bind (same Body.start Body.start (Body.Alike.refl _)) fun p q related => ?_
    exact Tracks.pure ⟨related.1, alike⟩
  refine Tracks.bind lifted ?_
  rintro ⟨⟨flow, _⟩, b'⟩ ⟨⟨flow', _⟩, c'⟩ ⟨same, alike'⟩
  cases same
  exact Tracks.pure ⟨rfl, alike'⟩

theorem follows_headAtRest {pass pass' : Environment → Walk Flow}
    (same : ∀ env, Follows view inv (pass env) (pass' env)) (left : Nat)
    (histories : Environment.Histories) (head : Environment) :
    Follows view inv (headAtRest setting pass left histories head)
      (headAtRest setting pass' left histories head) := by
  induction left generalizing histories head with
  | zero =>
      rw [headAtRest, headAtRest]
      refine Follows.bind (follows_onScratch (same head)) fun behind => ?_
      dsimp only
      split
      · exact Follows.pure head
      · exact Follows.pure _
  | succ left ih =>
      rw [headAtRest, headAtRest]
      refine Follows.bind (follows_onScratch (same head)) fun behind => ?_
      dsimp only
      split
      · exact Follows.pure head
      · exact ih _ _

theorem follows_recordPass {pass pass' : Walk Flow} (same : Follows view inv pass pass') :
    Follows view inv (recordPass pass) (recordPass pass') := by
  refine Follows.read fun outer outer' alike => ?_
  refine Follows.bind (Follows.modify fun _ _ _ => ?_) fun _ => ?_
  · exact { alike with breaks := rfl, continues := rfl }
  · refine Follows.bind same fun _ => Follows.read fun inner inner' alike' => ?_
    refine Follows.bind (Follows.modify fun _ _ _ => ?_) fun _ => ?_
    · exact { alike' with breaks := alike.breaks, continues := alike.continues }
    · rw [alike'.breaks]
      exact Follows.pure _

theorem follows_runLoop {pass pass' : Environment → Walk Flow}
    (same : ∀ env, Follows view inv (pass env) (pass' env)) (exit : Environment → Flow)
    (env : Environment) :
    Follows view inv (runLoop setting pass exit env) (runLoop setting pass' exit env) := by
  refine Follows.bind (follows_headAtRest same _ _ env) fun head => ?_
  exact Follows.bind (follows_recordPass (same head)) fun breaks => Follows.pure _

theorem follows_beforeUpdate (behind : Flow) :
    Follows view inv (beforeUpdate setting behind) (beforeUpdate setting behind) := by
  refine Follows.read fun b c alike => ?_
  rw [alike.continues]
  exact Follows.pure _

/-- A pass over a loop follows another one if its blocks do. -/
theorem follows_loopPass (calls : CallersAlike view inv call call') (context : BodyContext)
    (loop : Loop)
    (blocks : ∀ stmts ∈ loop.blocks, ∀ env,
      Follows view inv (execBlock setting call context.enterLoop stmts env)
        (execBlock setting call' context.enterLoop stmts env)) (head : Environment) :
    Follows view inv (loop.pass setting call context head)
      (loop.pass setting call' context head) := by
  cases loop with
  | whileTrue test body update =>
      refine Follows.bind (follows_evalCondition calls test head) fun _ => ?_
      refine Follows.arm (blocks body (by simp [Loop.blocks])) fun behind => ?_
      refine Follows.bind (follows_beforeUpdate behind) fun flow => ?_
      cases flow with
      | some updateEnv => exact blocks update (by simp [Loop.blocks]) updateEnv
      | none => exact Follows.pure none
  | forEach target element body =>
      refine Follows.bind (blocks body (by simp [Loop.blocks]) _) fun behind => ?_
      exact follows_beforeUpdate behind

theorem follows_loopRun (calls : CallersAlike view inv call call') (context : BodyContext)
    (loop : Loop)
    (blocks : ∀ stmts ∈ loop.blocks, ∀ env,
      Follows view inv (execBlock setting call context.enterLoop stmts env)
        (execBlock setting call' context.enterLoop stmts env)) (env : Environment) :
    Follows view inv (loop.run setting call context env) (loop.run setting call' context env) :=
  follows_runLoop (follows_loopPass calls context loop blocks) _ env

mutual

theorem follows_execStmt (calls : CallersAlike view inv call call') (context : BodyContext)
    (stmt : Stmt) (env : Environment) :
    Follows view inv (execStmt setting call context stmt env)
      (execStmt setting call' context stmt env) := by
  match stmt with
  | .assign target value declared loc =>
      rw [execStmt, execStmt]
      refine Follows.bind (follows_evalExpr calls value env) fun type => ?_
      exact follows_execAssign env target type declared loc
  | .fieldAssign object field value loc =>
      rw [execStmt, execStmt]
      refine Follows.bind (follows_evalExpr calls object env) fun objectType => ?_
      refine Follows.bind (follows_evalExpr calls value env) fun valueType => ?_
      dsimp only
      split
      · exact Follows.bind (follows_attach fun _ => rfl) fun _ => Follows.pure _
      · exact Follows.pure _
  | .expr expr loc =>
      rw [execStmt, execStmt]
      exact Follows.bind (follows_evalExpr calls expr env) fun _ => Follows.pure _
  | .ret (some expr) loc =>
      rw [execStmt, execStmt]
      refine Follows.bind (follows_evalExpr calls expr env) fun type => ?_
      exact Follows.bind (follows_addReturn context type loc) fun _ => Follows.pure none
  | .ret none loc =>
      rw [execStmt, execStmt]
      refine Follows.bind (Follows.pure _) fun type => ?_
      exact Follows.bind (follows_addReturn context type loc) fun _ => Follows.pure none
  | .raise value loc =>
      rw [execStmt, execStmt]
      exact Follows.bind (follows_evalExpr calls value env) fun _ => Follows.pure none
  | .branch test consequent alternate loc =>
      rw [execStmt, execStmt]
      refine Follows.bind (follows_evalCondition calls test env) fun _ => ?_
      refine Follows.arm (follows_execBlock calls context consequent) fun first => ?_
      refine Follows.arm (follows_execBlock calls context alternate) fun second => ?_
      exact Follows.pure _
  | .loop test body update loc =>
      rw [execStmt_loop, execStmt_loop]
      refine follows_loopRun calls context (.whileTrue test body update) ?_ env
      simp only [Loop.blocks, List.forall_mem_cons]
      exact ⟨follows_execBlock calls _ body, follows_execBlock calls _ update, by simp⟩
  | .forEach target iterable body loc =>
      rw [execStmt_forEach, execStmt_forEach]
      refine Follows.bind (follows_evalExpr calls iterable env) fun type => ?_
      split
      · exact Follows.pure _
      · refine Follows.bind (follows_callFunction calls "getindex" _ loc) fun element => ?_
        split
        · exact Follows.pure _
        · refine follows_loopRun calls context (.forEach target element body) ?_ env
          simp only [Loop.blocks, List.forall_mem_cons]
          exact ⟨follows_execBlock calls _ body, by simp⟩
  | .jump jump loc =>
      rw [execStmt, execStmt]
      exact follows_execJump context jump env loc

theorem follows_execBlock (calls : CallersAlike view inv call call') (context : BodyContext)
    (stmts : List Stmt) (env : Environment) :
    Follows view inv (execBlock setting call context stmts env)
      (execBlock setting call' context stmts env) := by
  match stmts with
  | [] =>
      rw [execBlock, execBlock]
      exact Follows.pure _
  | stmt :: rest =>
      rw [execBlock, execBlock]
      refine Follows.bind (follows_execStmt calls context stmt env) fun flow => ?_
      cases flow with
      | some next => exact follows_execBlock calls context rest next
      | none => exact Follows.pure none

end

/-! ## Dispatch cases -/

theorem follows_runBody (calls : CallersAlike view inv call call') (sees : view.sees)
    (found : Match) (args : List Ty) (stmts : List Stmt) :
    Follows view inv (runBody setting call found args stmts)
      (runBody setting call' found args stmts) := by
  refine Follows.bind (Follows.modify fun b c alike => ?_) fun _ => ?_
  · exact { alike with returns := fun _ => rfl, breaks := rfl, continues := rfl }
  · refine Follows.bind (follows_execBlock calls _ stmts _) fun flow => ?_
    have returned : Follows view inv (do return (← get).returns) (do return (← get).returns) := by
      refine Follows.read fun b c alike => ?_
      rw [alike.returns sees]
      exact Follows.pure _
    cases flow with
    | some _ => exact Follows.bind (follows_addReturn _ _ _) fun _ => returned
    | none => exact returned

/-- Where a conversion is reported does not matter to its result. -/
theorem convertChecked_moved (h : Hierarchy) (value target : Ty) (call : String)
    (loc loc' : Location) :
    convertChecked h value target call loc' =
      ((convertChecked h value target call loc).1,
        (convertChecked h value target call loc).2.map fun e => { e with loc := loc' }) := by
  unfold convertChecked
  cases convertType h value target <;> rfl

theorem convertIntrinsic_moved (h : Hierarchy) (callee : String) (args : List Ty)
    (loc loc' : Location) :
    convertIntrinsic h { callee := callee, loc := loc' } args =
      ((convertIntrinsic h { callee := callee, loc := loc } args).1,
        (convertIntrinsic h { callee := callee, loc := loc } args).2.map
          fun e => { e with loc := loc' }) := by
  unfold convertIntrinsic
  split
  · split
    · exact convertChecked_moved h _ _ _ loc loc'
    · rfl
  · rfl

theorem boundErrors_moved (h : Hierarchy) (params : List TypeParam) (bindings : Assoc Ty)
    (call : String) (loc loc' : Location) :
    boundErrors h params bindings call loc' =
      (boundErrors h params bindings call loc).map fun e => { e with loc := loc' } := by
  unfold boundErrors
  rw [List.map_filterMap]
  congr 1
  funext param
  cases bindings.find? param.name with
  | none => rfl
  | some bound =>
      dsimp only
      split <;> rfl

theorem argumentErrors_moved (h : Hierarchy) (bindings : Assoc Ty) (call : String)
    (loc loc' : Location) (fields args : List Ty) :
    argumentErrors h bindings call loc' fields args =
      (argumentErrors h bindings call loc fields args).map
        (List.map fun e => { e with loc := loc' }) := by
  induction fields generalizing args with
  | nil => simp [argumentErrors]
  | cons field fields ih =>
      cases args with
      | nil => simp [argumentErrors]
      | cons arg args =>
          rw [argumentErrors, argumentErrors, convertChecked_moved h _ _ _ loc loc']
          dsimp only
          split
          · rfl
          · exact ih args

theorem constructInstance_moved (h : Hierarchy) (callee name : String) (args : List Ty)
    (loc loc' : Location) :
    constructInstance h { callee := callee, loc := loc' } name args =
      ((constructInstance h { callee := callee, loc := loc } name args).1,
        (constructInstance h { callee := callee, loc := loc } name args).2.map
          fun e => { e with loc := loc' }) := by
  have text : CallSite.render { callee := callee, loc := loc' } args =
      CallSite.render { callee := callee, loc := loc } args := rfl
  unfold constructInstance
  dsimp only
  rw [text]
  split
  · rw [boundErrors_moved h _ _ _ loc loc', argumentErrors_moved h _ _ loc loc']
    cases boundErrors h _ _ _ loc with
    | nil =>
        rw [List.map_nil]
        dsimp only
        cases argumentErrors h _ _ loc _ args <;> rfl
    | cons error errors => rfl
  · rfl

theorem follows_invoke (calls : CallersAlike view inv call call') (sees : view.sees)
    (callee : String) {loc loc' : Location} (place : view.SamePlace loc loc') (found : Match)
    (args : List Ty) :
    Follows view inv (invoke setting call { callee := callee, loc := loc } found args)
      (invoke setting call' { callee := callee, loc := loc' } found args) := by
  unfold invoke
  dsimp only
  cases found.method.intrinsic with
  | some intrinsic =>
      cases intrinsic with
      | construct =>
          dsimp only
          have reported := place.map_moved fun loc loc' => congrArg Prod.snd
            (constructInstance_moved setting.hierarchy callee found.method.name args loc loc')
          rw [constructInstance_moved _ _ _ _ loc loc'] at reported ⊢
          exact Follows.bind (follows_report fun _ => reported) fun _ => Follows.pure _
      | convert =>
          dsimp only
          have reported := place.map_moved fun loc loc' => congrArg Prod.snd
            (convertIntrinsic_moved setting.hierarchy callee args loc loc')
          rw [convertIntrinsic_moved _ _ _ loc loc'] at reported ⊢
          exact Follows.bind (follows_report fun _ => reported) fun _ => Follows.pure _
  | none =>
      cases found.method.body with
      | none => exact Follows.pure _
      | some stmts => exact follows_runBody calls sees found args stmts

theorem follows_invokeAll (calls : CallersAlike view inv call call') (sees : view.sees)
    (callee : String) {loc loc' : Location} (place : view.SamePlace loc loc') (args : List Ty)
    (found : List Match) (result : Ty) :
    Follows view inv (invokeAll setting call { callee := callee, loc := loc } args found result)
      (invokeAll setting call' { callee := callee, loc := loc' } args found result) := by
  induction found generalizing result with
  | nil => exact Follows.pure result
  | cons first rest ih =>
      exact Follows.bind (follows_invoke calls sees callee place first args) fun type => ih _

/-- With callers that are alike, a pass over a dispatch case gives frames that are twins, also at
    places that a view does not tell apart. -/
theorem tracks_dispatchPass (setting : Setting) (calls : CallersAlike view inv call call')
    (sees : view.sees) (callee : String) (args : List Ty) {loc loc' : Location}
    (place : view.SamePlace loc loc') :
    Tracks inv (Frame.Twins view)
      (dispatchPass setting call callee args { callee := callee, loc := loc })
      (dispatchPass setting call' callee args { callee := callee, loc := loc' }) := by
  have single : ∀ d : Diagnostic,
      [{ d with loc := loc }].map view.of = [{ d with loc := loc' }].map view.of := by
    intro d
    rw [List.map_singleton, List.map_singleton, place d]
  unfold dispatchPass
  cases lookup setting.hierarchy setting.table callee args with
  | noMethod =>
      have alike : Frame.Alike view (noMethodFrame { callee := callee, loc := loc } args)
          (noMethodFrame { callee := callee, loc := loc' } args) :=
        ⟨rfl, rfl, fun _ => single (Diagnostic.noMethod _ args), fun _ => rfl⟩
      exact Tracks.pure ⟨alike, rfl, rfl⟩
  | ambiguous candidates =>
      have alike : Frame.Alike view (ambiguousFrame { callee := callee, loc := loc } args candidates)
          (ambiguousFrame { callee := callee, loc := loc' } args candidates) :=
        ⟨rfl, rfl, fun _ => single (Diagnostic.ambiguous _ args candidates), fun _ => rfl⟩
      exact Tracks.pure ⟨alike, rfl, rfl⟩
  | matched found =>
      refine Tracks.bind (follows_invokeAll calls sees callee place args found .bottom Body.start
        Body.start (Body.Alike.refl _)) ?_
      rintro ⟨ret, body⟩ ⟨ret', body'⟩ ⟨same, alike⟩
      exact Tracks.pure ⟨⟨same, rfl, alike.errors, alike.children⟩, rfl, rfl⟩

end Walks

end Multimethod.Inference
