import Multimethod.Ty.Basic

/-!
# Building unions

`Ty.unionOf` brings a list of types into the canonical form of their union without looking at
any declaration: nested unions are flattened, the top absorbs, the bottom disappears, of
several types with one id the first is kept, and the members stand in the order of their ids.
-/

namespace Multimethod.Ty

/-- The members of all types of a list, in order. -/
def flatten (ts : List Ty) : List Ty :=
  ts.flatMap members

/-- The types of `ts` without the bottom and without those whose id is in `seen` or came
    earlier. -/
def distinctFrom (seen : List String) : List Ty → List Ty
  | [] => []
  | t :: ts =>
      if t.isBottom || seen.contains t.id then distinctFrom seen ts
      else t :: distinctFrom (t.id :: seen) ts

/-- The types of `ts` without the bottom, each id once, in order of first appearance. -/
def distinct (ts : List Ty) : List Ty :=
  distinctFrom [] ts

/-- Whether the id of `a` does not stand behind the id of `b`. -/
def idNotAfter (a b : Ty) : Bool :=
  !unitsBefore b.id a.id

/-- The canonical union of a list of types. -/
def unionOf (ts : List Ty) : Ty :=
  let flat := flatten ts
  if flat.any isAny then any
  else
    match distinct flat with
    | [] => bottom
    | [t] => t
    | several => union (several.mergeSort idNotAfter)

end Multimethod.Ty
