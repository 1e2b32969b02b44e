import Multimethod.Proofs.Environment.Order
import Multimethod.Proofs.Inference.Ending
import Multimethod.Proofs.Inference.Grounding

/-!
# The head of a loop

Scratch passes over a loop raise the environment at its head until nothing changes any more or the
limit is reached. Either way the environment found for the recorded pass is above what the last
scratch pass came to, and before the limit it is the one with which this pass began.
-/

namespace Multimethod.Inference

open Environment Multimethod.Lattice

/-- Whether the types that a loop names are of a kind. -/
structure Loop.Of (kind : Ty → Prop) (loop : Loop) : Prop where
  own : ∀ t ∈ loop.ownTypes, kind t
  blocks : ∀ stmts ∈ loop.blocks, ∀ t ∈ Stmt.allTypes stmts, kind t

variable {setting : Setting} {call : Caller} {context : BodyContext} {loop : Loop}
  {kind : Ty → Prop} {known : Session → Prop} {bad : Fault → Session → Prop}
  {pass : Environment → Walk Flow} {env : Environment} {s : Session} {n : Nat} {attempt : Attempt}

/-- A pass over a loop keeps to the kind of the types that the loop names. -/
theorem Loop.Of.sound_pass (ofLoop : loop.Of kind) (answering : Answering kind known bad call)
    (closed : Closed setting kind) (expected : ∀ d ∈ context.expected, kind d) (head : Environment)
    (ofHead : head.Of kind) :
    Sound kind kind known bad (loop.pass setting call context head) (Flow.Of kind) := by
  have inside : Collecting setting kind kind context.enterLoop.expected :=
    closed.collecting expected
  exact sound_loopPass answering closed loop ofLoop.own (fun stmts member env =>
    sound_execBlock answering closed inside stmts (ofLoop.blocks stmts member)) ofHead

/-! ## Scratch passes -/

/-- Whether the types at the head of a loop, now and before, are of a kind. -/
structure Attempt.Of (kind : Ty → Prop) (attempt : Attempt) : Prop where
  histories : attempt.histories.Of kind
  head : attempt.head.Of kind

theorem Attempt.Of.nextHead (closed : Closed setting kind) (of : attempt.Of kind) {behind : Flow}
    (ofBehind : behind.Of kind) :
    (nextHead setting attempt behind).1.Of kind ∧ (nextHead setting attempt behind).2.Of kind := by
  have merged : Flow.Of kind (mergeFlows setting.hierarchy [some attempt.head, behind]) :=
    of_mergeFlows closed (by simp [of_some of.head, ofBehind])
  refine of_widenAll closed ?_ of.histories _
  cases joined : mergeFlows setting.hierarchy [some attempt.head, behind] with
  | none => exact of.head
  | some env => exact merged env joined

/-- The scratch passes over a loop keep to a kind, and to what is known of the session. -/
theorem of_attempts (closed : Closed setting kind)
    (sound : ∀ head, head.Of kind → Sound kind kind known bad (pass head) (Flow.Of kind))
    (ofEnv : env.Of kind) (before : known s) (attempts : Attempts setting pass env s n attempt) :
    attempt.Of kind ∧ known attempt.session := by
  induction attempts with
  | first => exact ⟨⟨by simp [Histories.Of], ofEnv⟩, before⟩
  | again _ moves _ ih =>
      obtain ⟨of, before⟩ := ih
      obtain ⟨behind, body, passed, heads, -⟩ := nextAttempt_eq_some moves
      obtain ⟨⟨ofBehind, -⟩, after⟩ :=
        (sound _ of.head Body.start _ closed.of_start before).of_ok passed
      obtain ⟨next, histories⟩ := of.nextHead closed ofBehind
      rw [heads] at next histories
      exact ⟨⟨histories, next⟩, after⟩

/-! ## Above the last scratch pass -/

/-- Whether the environment that a flow gets to, if any, is below another one. -/
def Flow.Below (h : Hierarchy) (flow : Flow) (head : Environment) : Prop :=
  ∀ env ∈ flow, Environment.Below h env head

instance (h : Hierarchy) (flow : Flow) (head : Environment) : Decidable (Flow.Below h flow head) :=
  inferInstanceAs (Decidable (∀ env ∈ flow, Environment.Below h env head))

/-- Environments of ground types are ground in their innermost scope. -/
theorem groundHere_of {h : Hierarchy} (of : env.Of fun t => t.ground h = true) :
    env.GroundHere h where
  distinct := of.distinct
  ground name t bound := by
    obtain ⟨x, found, rfl⟩ := typeHere?_eq_some.1 bound
    exact (of.here _ (Assoc.mem_of_find? found)).1

/-- What a scratch pass comes to is below the environment at the head of the next one. -/
theorem below_nextHead (ordered : Hierarchy.Ordered setting.hierarchy.decls)
    (closed : Closed setting setting.Ground) (of : attempt.Of setting.Ground) {behind : Flow}
    (ofBehind : behind.Of setting.Ground) :
    Flow.Below setting.hierarchy behind (nextHead setting attempt behind).1 := by
  rintro last ⟨⟩
  have ofLast := ofBehind last rfl
  have ofMerged := of.head.merge closed ofLast
  have rises := below_widenAll setting.hierarchy ofMerged.distinct attempt.histories
    setting.options.wideningThreshold
  have next := (of.nextHead closed ofBehind).1
  refine Below.trans ordered (below_merge_right ordered (groundHere_of of.head)
    (groundHere_of ofLast)) rises (groundHere_of ofLast) (groundHere_of ofMerged) (groundHere_of next)

/-- The environment found for the recorded pass is above what the last scratch pass came to. -/
theorem below_atRest (ordered : Hierarchy.Ordered setting.hierarchy.decls)
    (closed : Closed setting setting.Ground) (of : attempt.Of setting.Ground) {behind : Flow}
    (ofBehind : behind.Of setting.Ground) {head : Environment}
    (found : AtRest setting n attempt (nextHead setting attempt behind).1 head) :
    Flow.Below setting.hierarchy behind head := by
  intro last reached
  have risen := below_nextHead ordered closed of ofBehind last reached
  have ofLast := groundHere_of (ofBehind last reached)
  have next := (of.nextHead closed ofBehind).1
  cases found with
  | same rest =>
      exact risen.trans ordered
        (below_of_sameTypes (groundHere_of next) (groundHere_of of.head) rest) ofLast
        (groundHere_of next) (groundHere_of of.head)
  | limit _ =>
      exact risen.trans ordered (below_topDivergent _ _ next.distinct) ofLast (groundHere_of next)
        (groundHere_of (of_topDivergent closed next attempt.head))

end Multimethod.Inference
