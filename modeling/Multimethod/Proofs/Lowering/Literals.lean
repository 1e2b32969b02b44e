import Multimethod.Lowering.Unit
import Multimethod.Proofs.Ty.Identity

/-!
# Types of literals

A global variable starts as a literal, so its type is one of the types that literals have.
-/

namespace Multimethod

/-- The types that literals have. -/
def Ty.literals : List Ty := [int, float, string, bool, nothing]

/-- Whether the types of literals have no parameters, as the prelude declares them. -/
def Hierarchy.PlainLiterals (h : Hierarchy) : Prop :=
  ∀ t ∈ Ty.literals, h.paramsOf t.word = []

namespace Lowering

/-- Whether an expression, if it is a literal, has a type that literals have. -/
def IsProper (e : Expr) : Prop :=
  ∀ type value loc, e = .literal type value loc → type ∈ Ty.literals

theorem isProper_of_not_literal {e : Expr} (other : ∀ type value loc, e ≠ .literal type value loc) :
    IsProper e :=
  fun type value loc equal => absurd equal (other type value loc)

theorem isProper_literal {type : Ty} (member : type ∈ Ty.literals) (value : Option Bool)
    (loc : Location) : IsProper (.literal type value loc) := by
  rintro _ _ _ ⟨⟩
  exact member

/-- Whether a computation answers proper expressions only. -/
def YieldsProper (result : Checked Expr) : Prop :=
  ∀ e, result = .ok e → IsProper e

theorem yieldsProper_ok {e : Expr} (proper : IsProper e) : YieldsProper (.ok e) := by
  rintro _ ⟨⟩
  exact proper

theorem yieldsProper_fail (s : Scope) (cause : Cause) (p : Surface.Position) :
    YieldsProper (s.fail cause p) := by
  rintro _ ⟨⟩

theorem yieldsProper_bind {α : Type} {first : Checked α} {next : α → Checked Expr}
    (proper : ∀ a, YieldsProper (next a)) : YieldsProper (first >>= next) := by
  cases first with
  | error fault => rintro _ ⟨⟩
  | ok a => exact proper a

theorem isProper_numberLiteral (s : Scope) (isWhole : Bool) (start : Surface.Position) :
    IsProper (numberLiteral s isWhole start) := by
  refine isProper_literal ?_ _ _
  cases isWhole <;> simp [Ty.literals]

/-- Lowering gives literals no other types. -/
theorem yieldsProper_lowerExpr (s : Scope) (e : Surface.Expr) : YieldsProper (lowerExpr s e) := by
  rw [lowerExpr.eq_def]
  split
  · exact yieldsProper_ok (isProper_numberLiteral s _ _)
  · exact yieldsProper_ok (isProper_literal (by simp [Ty.literals]) _ _)
  · exact yieldsProper_ok (isProper_literal (by simp [Ty.literals]) _ _)
  · exact yieldsProper_fail s _ _
  · exact yieldsProper_ok (isProper_literal (by simp [Ty.literals]) _ _)
  · exact yieldsProper_ok (isProper_literal (by simp [Ty.literals]) _ _)
  · exact yieldsProper_ok (isProper_of_not_literal (by simp))
  · exact yieldsProper_lowerExpr s _
  · exact yieldsProper_fail s _ _
  · refine yieldsProper_bind fun _ => yieldsProper_bind fun _ => ?_
    exact yieldsProper_ok (isProper_of_not_literal (by simp))
  · split
    · exact yieldsProper_fail s _ _
    · refine yieldsProper_bind fun _ => yieldsProper_bind fun _ => ?_
      exact yieldsProper_ok (isProper_of_not_literal (by simp))
  · split
    · exact yieldsProper_ok (isProper_numberLiteral s _ _)
    · split
      · refine yieldsProper_bind fun _ => ?_
        exact yieldsProper_ok (isProper_of_not_literal (by simp))
      · exact yieldsProper_fail s _ _
  · split
    · exact yieldsProper_fail s _ _
    · refine yieldsProper_bind fun _ => yieldsProper_bind fun _ => ?_
      exact yieldsProper_ok (isProper_of_not_literal (by simp))
  · refine yieldsProper_bind fun _ => yieldsProper_bind fun _ => yieldsProper_bind fun _ => ?_
    exact yieldsProper_ok (isProper_of_not_literal (by simp))
  · split
    · refine yieldsProper_bind fun _ => ?_
      exact yieldsProper_ok (isProper_of_not_literal (by simp))
    · exact yieldsProper_fail s _ _
  · split
    · refine yieldsProper_bind fun _ => ?_
      exact yieldsProper_ok (isProper_of_not_literal (by simp))
    · exact yieldsProper_fail s _ _
  · exact yieldsProper_fail s _ _
  · refine yieldsProper_bind fun _ => yieldsProper_bind fun _ => ?_
    exact yieldsProper_ok (isProper_of_not_literal (by simp))
  · refine yieldsProper_bind fun _ => ?_
    exact yieldsProper_ok (isProper_of_not_literal (by simp))
  · refine yieldsProper_bind fun _ => ?_
    exact yieldsProper_ok (isProper_of_not_literal (by simp))
  · exact yieldsProper_fail s _ _

/-- A global variable has the type of a literal. -/
theorem lowerGlobal_type {s : Scope} {d : Surface.Declarator} {binding : GlobalBinding}
    (accepted : lowerGlobal s d = .ok binding) : binding.type ∈ Ty.literals := by
  unfold lowerGlobal at accepted
  split at accepted
  case h_1 name ascription start value _ _ =>
      have proper := yieldsProper_lowerExpr s value
      cases lowered : lowerExpr s value with
      | error fault =>
          rw [lowered] at accepted
          cases accepted
      | ok e =>
          rw [lowered] at accepted
          cases e with
          | literal type known loc =>
              cases accepted
              exact proper _ lowered type known loc rfl
          | _ => cases accepted
  case h_2 => cases accepted

end Lowering

end Multimethod
