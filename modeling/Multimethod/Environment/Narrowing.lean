import Multimethod.Environment.Merge
import Multimethod.Program.Expr

/-!
# Narrowing

A condition tells something about the names it tests: on the arm where it holds, and on the
arm where it does not.
-/

namespace Multimethod.Environment

open Multimethod.Lattice

/-- The environment in which a tested name is known to be, or not to be, a `test`. -/
def narrowName (h : Hierarchy) (env : Environment) (name : String) (test : Ty)
    (truthy : Bool) : Flow :=
  match env.lookup name with
  | none => some env
  | some binding =>
      if binding.type.isBottom then some env
      else
        let narrowed :=
          if truthy then meet h binding.type test else subtract h binding.type test
        if narrowed.isBottom then none
        else some (env.update name narrowed .assigned none)

/-- The environment on the arm where `test` evaluates to `truthy`, or nothing when control
    cannot get there. -/
def narrow (h : Hierarchy) (env : Environment) (test : Expr) (truthy : Bool) : Flow :=
  match test with
  | .literal _ (some value) _ => if value == truthy then some env else none
  | .isa (.name name _) type _ => narrowName h env name type truthy
  | .call callee [operand] _ =>
      if callee == "!" then narrow h env operand (!truthy) else some env
  | .logical .and left right _ =>
      let leftTrue := narrow h env left true
      if truthy then leftTrue.bind fun env => narrow h env right true
      else
        mergeFlows h [narrow h env left false, leftTrue.bind fun env => narrow h env right false]
  | .logical .or left right _ =>
      let leftFalse := narrow h env left false
      if truthy then
        mergeFlows h [narrow h env left true, leftFalse.bind fun env => narrow h env right true]
      else leftFalse.bind fun env => narrow h env right false
  | _ => some env

end Multimethod.Environment
