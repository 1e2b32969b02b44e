import Multimethod.Proofs.Inference.Scripts

/-!
# What does not jump

Only jumps leave the innermost loop early. Whatever else a statement evaluates, converts or returns
leaves alone where control has left the loop before.
-/

namespace Multimethod.Inference

open Dispatch Multimethod.Lattice Environment

/-- Whether a computation leaves the innermost loop nowhere. -/
def JumpFree {α : Type} (m : Walk α) : Prop :=
  ∀ b s, Ends (fun p _ => p.2.breaks = b.breaks ∧ p.2.continues = b.continues) (fun _ _ => True)
    (m b s)

variable {setting : Setting} {call : Caller} {α β : Type} {m : Walk α} {f : α → Walk β}

theorem JumpFree.pure (x : α) : JumpFree (pure x) :=
  fun _ _ => And.intro rfl rfl

theorem JumpFree.bind (first : JumpFree m) (next : ∀ x, JumpFree (f x)) : JumpFree (m >>= f) := by
  intro b s
  refine Ends.bind (first b s) fun p t _ here => ?_
  refine (next p.1 p.2 t).imp (fun q _ there => ?_) fun _ _ _ => trivial
  exact ⟨there.1.trans here.1, there.2.trans here.2⟩

/-- Going on behind an arm that control may not get to. -/
theorem JumpFree.arm {flow : Flow} {f : Environment → Walk α} {x : α} {k : α → Walk β}
    (arm : ∀ env, JumpFree (f env)) (next : ∀ a, JumpFree (k a)) :
    JumpFree
      (match flow with
        | some env => f env >>= k
        | none => Pure.pure x >>= k) := by
  cases flow with
  | some env => exact (arm env).bind next
  | none => exact (JumpFree.pure x).bind next

theorem jumpFree_report (errors : List Diagnostic) : JumpFree (report errors) :=
  fun _ _ => And.intro rfl rfl

theorem jumpFree_attach (frames : List Frame) : JumpFree (attach frames) :=
  fun _ _ => And.intro rfl rfl

theorem jumpFree_lift (m : Infer α) : JumpFree (liftM m : Walk α) := by
  intro b s
  exact Ends.bind (ends_trivially (m s)) fun _ _ _ _ => And.intro rfl rfl

/-! ## Calls -/

theorem jumpFree_callCases (callee : String) (site : CallSite) (cases : List (List Ty))
    (result : Ty) (accepted : Bool) :
    JumpFree (callCases setting call callee site cases result accepted) := by
  induction cases generalizing result accepted with
  | nil => exact .pure _
  | cons args rest ih =>
      exact (jumpFree_lift _).bind fun frame => (jumpFree_attach _).bind fun _ => ih _ _

theorem jumpFree_callFunction (callee : String) (args : List Ty) (site : CallSite) :
    JumpFree (callFunction setting call callee args site) := by
  refine (jumpFree_callCases callee site _ _ _).bind ?_
  rintro ⟨result, accepted⟩
  dsimp only
  split
  · exact (jumpFree_attach _).bind fun _ => .pure result
  · exact .pure result

theorem jumpFree_callValue (callee : String) (value : Ty) (args : List Ty) (loc : Location) :
    JumpFree (callValue setting call callee value args loc) := by
  unfold callValue
  have misuse : JumpFree (do
      report [Diagnostic.builtinMisuse (renderCall callee none args)
        s!"{callee}::{value.render} is not callable" loc]
      pure Ty.bottom) := (jumpFree_report _).bind fun _ => .pure Ty.bottom
  dsimp only
  split
  · exact .pure Ty.any
  · exact .pure Ty.any
  · split
    · exact jumpFree_callFunction _ args _
    · exact misuse
  · exact misuse

theorem jumpFree_resolveCall (callee : String) (loc : Location) (args : List Ty)
    (env : Environment) : JumpFree (resolveCall setting call callee loc args env) := by
  unfold resolveCall
  cases callRoute setting env callee with
  | value type => exact jumpFree_callValue callee type args loc
  | generic => exact jumpFree_callFunction callee args _
  | undefined => exact (jumpFree_report _).bind fun _ => .pure Ty.bottom

/-! ## Expressions -/

theorem jumpFree_checkCondition (type : Ty) (loc : Location) :
    JumpFree (checkCondition setting type loc) := by
  unfold checkCondition
  split
  · exact jumpFree_report _
  · exact .pure ()

theorem jumpFree_evalName (env : Environment) (name : String) (loc : Location) :
    JumpFree (evalName setting env name loc) := by
  unfold evalName
  split
  · exact .pure _
  · split
    · exact .pure _
    · split
      · exact .pure _
      · exact (jumpFree_report _).bind fun _ => .pure Ty.bottom

mutual

theorem jumpFree_evalExpr (expr : Expr) (env : Environment) :
    JumpFree (evalExpr setting call expr env) := by
  match expr with
  | .literal type value loc =>
      simp only [evalExpr]
      exact .pure type
  | .name name loc =>
      simp only [evalExpr]
      exact jumpFree_evalName env name loc
  | .call callee args loc =>
      simp only [evalExpr]
      refine (jumpFree_evalAll args env).bind fun types => ?_
      split
      · exact .pure Ty.bottom
      · exact jumpFree_resolveCall callee loc types env
  | .field object field loc =>
      simp only [evalExpr]
      refine (jumpFree_evalExpr object env).bind fun type => ?_
      split
      · exact .pure Ty.bottom
      · exact (jumpFree_attach _).bind fun _ => .pure _
  | .isa subject test loc =>
      simp only [evalExpr]
      exact (jumpFree_evalExpr subject env).bind fun type => .pure _
  | .logical op left right loc =>
      simp only [evalExpr]
      refine (jumpFree_evalExpr left env).bind fun type => ?_
      refine (jumpFree_checkCondition type left.loc).bind fun _ => ?_
      split
      · exact .pure Ty.bottom
      · cases env.narrow setting.hierarchy left (op == .and) with
        | none => exact .pure Ty.bool
        | some rightEnv =>
            refine (jumpFree_evalExpr right rightEnv).bind fun rightType => ?_
            exact (jumpFree_checkCondition rightType right.loc).bind fun _ => .pure _
  | .conditional test consequent alternate loc =>
      simp only [evalExpr]
      refine (jumpFree_evalExpr test env).bind fun type => ?_
      refine (jumpFree_checkCondition type test.loc).bind fun _ => ?_
      refine .arm (jumpFree_evalExpr consequent) fun first => ?_
      exact .arm (jumpFree_evalExpr alternate) fun second => .pure _
  | .vector elements loc =>
      simp only [evalExpr]
      exact (jumpFree_evalAll elements env).bind fun types => .pure _

theorem jumpFree_evalAll (exprs : List Expr) (env : Environment) :
    JumpFree (evalAll setting call exprs env) := by
  match exprs with
  | [] =>
      simp only [evalAll]
      exact .pure []
  | expr :: exprs =>
      simp only [evalAll]
      refine (jumpFree_evalExpr expr env).bind fun type => ?_
      exact (jumpFree_evalAll exprs env).bind fun types => .pure _

end

theorem jumpFree_evalCondition (expr : Expr) (env : Environment) :
    JumpFree (evalCondition setting call expr env) :=
  (jumpFree_evalExpr expr env).bind fun type =>
    (jumpFree_checkCondition type expr.loc).bind fun _ => .pure type

/-! ## Statements -/

theorem jumpFree_convertDeclared (value : Ty) (declared : Option Ty) (loc : Location) :
    JumpFree (convertDeclared setting value declared loc) := by
  unfold convertDeclared
  cases declared with
  | none => exact .pure value
  | some target =>
      dsimp only
      split
      · exact .pure value
      · exact (jumpFree_report _).bind fun _ => .pure _

theorem jumpFree_addReturn (context : BodyContext) (value : Ty) (loc : Location) :
    JumpFree (addReturn setting context value loc) :=
  (jumpFree_convertDeclared value context.expected loc).bind fun _ _ _ => And.intro rfl rfl

end Multimethod.Inference
