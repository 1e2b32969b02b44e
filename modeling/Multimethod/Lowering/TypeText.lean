import Multimethod.Lowering.Scope
import Multimethod.Surface.Parse

/-!
# Types in a text

A type that stands alone, as in a data file.
-/

namespace Multimethod.Lowering

open Surface

/-- Reads a type by declaring a variable of it. -/
def readType (s : Scope) (source : String) : Checked Ty :=
  match SourceUnit.parse s!"let __type: {source};" with
  | .ok ⟨.stmt (.declared (⟨.name _ (some type) _, _⟩ :: _) _) :: _⟩ => lowerType s type
  | _ => .error (.malformed (.typeExpression source) none)

end Multimethod.Lowering
