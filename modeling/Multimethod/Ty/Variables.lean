import Multimethod.Assoc
import Multimethod.Ty.Union

/-!
# Type variables

Replacing the variables of a type by bound types, or by their upper bounds.
-/

namespace Multimethod.Ty

mutual

/-- Whether a type mentions a variable. Bounds do not count. -/
def hasVars : Ty → Bool
  | typeVar _ _ => true
  | concrete _ params => anyHasVars params
  | union members => anyHasVars members
  | _ => false

/-- Whether some type of a list mentions a variable. -/
def anyHasVars : List Ty → Bool
  | [] => false
  | t :: ts => hasVars t || anyHasVars ts

end

mutual

/-- Replaces each bound variable by its type. Variables without a binding stay. -/
def substitute (bindings : Assoc Ty) : Ty → Ty
  | typeVar name bound => (bindings.find? name).getD (typeVar name bound)
  | concrete name params => concrete name (substituteAll bindings params)
  | union members => unionOf (substituteAll bindings members)
  | t => t

/-- Replaces the variables of every type of a list. -/
def substituteAll (bindings : Assoc Ty) : List Ty → List Ty
  | [] => []
  | t :: ts => substitute bindings t :: substituteAll bindings ts

end

mutual

/-- Replaces each variable by its erased bound. A parametric type whose arguments mention a
    variable becomes the bare type, any instance of it. -/
def erase : Ty → Ty
  | typeVar _ bound => erase bound
  | concrete name params => if anyHasVars params then concrete name [] else concrete name params
  | union members => unionOf (eraseAll members)
  | t => t

/-- Erases every type of a list. -/
def eraseAll : List Ty → List Ty
  | [] => []
  | t :: ts => erase t :: eraseAll ts

end

mutual

/-- The names of the variables of a type, once per mention, from left to right. -/
def varNames : Ty → List String
  | typeVar name _ => [name]
  | concrete _ params => allVarNames params
  | union members => allVarNames members
  | _ => []

/-- The names of the variables of a list of types. -/
def allVarNames : List Ty → List String
  | [] => []
  | t :: ts => varNames t ++ allVarNames ts

end

end Multimethod.Ty
