import Multimethod.Text.Rounding
import Multimethod.Ty.Basic

/-!
# Dispatch cases

A list of argument types that contains unions stands for several lists without unions, one
per choice of members.
-/

namespace Multimethod.Ty

/-- How many choices of members an argument list has. -/
def caseCount (args : List Ty) : Nat :=
  args.foldl (fun count arg => count * arg.members.length) 1

/-- The number of choices as it is told: every product is rounded, and the result has the fewest
    digits that identify it. -/
def toldCaseCount (args : List Ty) : Nat :=
  Rounding.shortest (args.foldl (fun count arg => Rounding.nearest (count * arg.members.length)) 1)

/-- Every choice of members, the first argument varying slowest. -/
def combinations : List Ty → List (List Ty)
  | [] => [[]]
  | arg :: args => arg.members.flatMap fun m => (combinations args).map (m :: ·)

/-- The cases of an argument list: its choices of members, unless there is only one or there
    are more than `limit`. -/
def splitCases (args : List Ty) (limit : Nat) : List (List Ty) :=
  let count := caseCount args
  if count ≤ 1 || limit < count then [args] else combinations args

end Multimethod.Ty
