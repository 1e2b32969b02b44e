import Multimethod.Text.Units

/-!
# Types

Abstract values of the analysed program. Every type has a canonical text, its `id`, and two
types count as the same exactly when their ids agree. A size measure supports recursion on
pairs of types.
-/

namespace Multimethod

/-- The types that stand for the values of an analysed program. -/
inductive Ty where
  /-- The top: any value. -/
  | any
  /-- The bottom: no value. -/
  | bottom
  /-- Instances of a leaf type. A parametric type without arguments stands for all of its
      instances. -/
  | concrete (name : String) (params : List Ty)
  /-- A type that has subtypes but no instances of its own. -/
  | abstract (name : String)
  /-- A variable of a where-clause, below its bound. -/
  | typeVar (name : String) (bound : Ty)
  /-- One of several types. -/
  | union (members : List Ty)
  deriving Inhabited, Repr

namespace Ty

mutual

/-- The canonical text of a type. -/
def id : Ty → String
  | any => "Any"
  | bottom => "Bottom"
  | concrete name [] => name
  | concrete name (p :: ps) => name ++ "\x7b" ++ ", ".intercalate (ids (p :: ps)) ++ "\x7d"
  | abstract name => name
  | typeVar name _ => name
  | union members => "Union\x7b" ++ ", ".intercalate (ids members) ++ "\x7d"

/-- The canonical texts of a list of types. -/
def ids : List Ty → List String
  | [] => []
  | t :: ts => id t :: ids ts

end

@[simp] theorem ids_eq_map (ts : List Ty) : ids ts = ts.map id := by
  induction ts with
  | nil => rfl
  | cons t ts ih => simp [ids, ih]

mutual

/-- A measure of a type: each type is larger than its parts together. -/
def size : Ty → Nat
  | concrete _ params => 1 + sizes params
  | typeVar _ bound => 1 + size bound
  | union members => 1 + sizes members
  | _ => 1

/-- A measure of a list of types: more than its elements together. -/
def sizes : List Ty → Nat
  | [] => 0
  | t :: ts => 1 + size t + sizes ts

end

theorem size_pos (t : Ty) : 0 < t.size := by
  cases t <;> simp only [size] <;> omega

theorem size_lt_sizes {t : Ty} {ts : List Ty} (h : t ∈ ts) : t.size < sizes ts := by
  induction ts with
  | nil => cases h
  | cons u us ih =>
      rcases List.mem_cons.1 h with rfl | h
      · simp only [sizes]; omega
      · have := ih h
        simp only [sizes]; omega

/-- Whether two types have the same id. -/
def same (a b : Ty) : Bool :=
  a.id == b.id

@[simp] theorem same_refl (a : Ty) : a.same a = true := by
  simp [same]

/-- The members of a union; any other type is its own only member. -/
def members : Ty → List Ty
  | union ms => ms
  | t => [t]

/-- Whether a type is the bottom. -/
def isBottom : Ty → Bool
  | bottom => true
  | _ => false

/-- Whether a type is the top. -/
def isAny : Ty → Bool
  | any => true
  | _ => false

/-- The type of truth values. -/
def bool : Ty := concrete "Bool" []

/-- The type of whole numbers. -/
def int : Ty := concrete "Int" []

/-- The type of fractional numbers. -/
def float : Ty := concrete "Float" []

/-- The type of texts. -/
def string : Ty := concrete "String" []

/-- The type of the absent value. -/
def nothing : Ty := concrete "Nothing" []

/-- The type of functions used as values. -/
def function : Ty := concrete "Function" []

/-- The type whose only value is the type `t` itself. -/
def typeOf (t : Ty) : Ty := concrete "Type" [t]

/-- The type of vectors over `t`. -/
def vector (t : Ty) : Ty := concrete "Vector" [t]

end Ty

end Multimethod
