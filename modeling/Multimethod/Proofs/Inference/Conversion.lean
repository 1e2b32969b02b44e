import Multimethod.Inference.Conversion
import Multimethod.Proofs.Lattice.Meet

/-!
# What a value is converted to

A conversion gives the value itself, the target if both are numbers, or what the two have in common.
Each of these is below the target.
-/

namespace Multimethod.Inference

open Multimethod.Lattice

variable {h : Hierarchy} {value target converted : Ty}

/-- A converted value is the value, if it is below the target already, or the target, if both are
    numbers, or what they have in common. -/
theorem convertType_cases (converts : convertType h value target = some converted) :
    (converted = value ∧ isSubtype h value target = true) ∨
      (converted = target ∧ isSubtype h value numberType = true ∧
        isSubtype h target numberType = true) ∨
      (converted = meet h value target ∧ converted.isBottom = false) := by
  unfold convertType at converts
  split at converts
  case isTrue fits =>
      cases converts
      refine .inl ⟨rfl, ?_⟩
      rcases Bool.or_eq_true_iff.1 fits with empty | below
      · exact isSubtype_of_isBottom empty target
      · exact below
  case isFalse =>
      split at converts
      case isTrue numbers =>
          cases converts
          exact .inr (.inl ⟨rfl, Bool.and_eq_true_iff.1 numbers⟩)
      case isFalse =>
          dsimp only at converts
          split at converts
          case isTrue => cases converts
          case isFalse solid =>
              cases converts
              exact .inr (.inr ⟨rfl, Bool.eq_false_iff.2 solid⟩)

/-- What a value is converted to is below the type to which it is converted. -/
theorem convertType_isSubtype (ordered : Hierarchy.Ordered h.decls)
    (ofValue : value.ground h = true) (ofTarget : target.ground h = true)
    (converts : convertType h value target = some converted) :
    isSubtype h converted target = true := by
  obtain ⟨rfl, below⟩ | ⟨rfl, -⟩ | ⟨rfl, -⟩ := convertType_cases converts
  · exact below
  · exact isSubtype_refl h _
  · exact (meet_lowerBound ordered ofValue ofTarget).2.2

theorem convertChecked_isSubtype (ordered : Hierarchy.Ordered h.decls)
    (ofValue : value.ground h = true) (ofTarget : target.ground h = true)
    (call : String) (loc : Location) :
    isSubtype h (convertChecked h value target call loc).1 target = true := by
  unfold convertChecked
  cases converts : convertType h value target with
  | some converted => exact convertType_isSubtype ordered ofValue ofTarget converts
  | none => exact bottom_isSubtype h target

end Multimethod.Inference
