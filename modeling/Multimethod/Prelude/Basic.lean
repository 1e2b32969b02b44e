import Multimethod.Program.Method

/-!
# The prelude

The builtin types and methods. They are located in a file of their own, one line per
definition, types before methods.
-/

namespace Multimethod

/-- Builtin types and methods. -/
structure Prelude where
  types : List TypeDecl
  methods : List Method

namespace Prelude

/-- The file in which builtin definitions are located. -/
def file : String := "<prelude>"

/-- The place of the definition with a given index. -/
def placeOf (index : Nat) : Location := ⟨file, index + 1, 0⟩

/-- A builtin type below `supertype`, which carries no fields. -/
def typeDecl (name : String) (isAbstract : Bool) (supertype : String)
    (params : List TypeParam) : TypeDecl where
  name := name
  isAbstract := isAbstract
  supertype := some supertype
  params := params
  fields := none
  loc := none

/-- An abstract builtin type. -/
def abstractType (name supertype : String) : TypeDecl :=
  typeDecl name true supertype []

/-- A builtin type without parameters. -/
def leafType (name supertype : String) : TypeDecl :=
  typeDecl name false supertype []

/-- A builtin type with one invariant parameter. -/
def containerType (name : String) : TypeDecl :=
  typeDecl name false "Any" [⟨"T", .invariant, .any⟩]

/-- A builtin method without a body; its parameters are called `x1`, `x2` and so on. -/
def method (name : String) (typeParams : List TypeVar) (params : List Ty)
    (returns : Option Ty) (intrinsic : Option Intrinsic) : Method where
  name := name
  params := params.zipIdx.map fun (type, i) => ⟨s!"x{i + 1}", type⟩
  typeParams := typeParams
  returns := returns
  body := none
  intrinsic := intrinsic
  loc := default

/-- A method without type variables. -/
def plain (name : String) (params : List Ty) (returns : Ty) : Method :=
  method name [] params (some returns) none

/-- A method with the type variable `v`. -/
def generic (name : String) (v : TypeVar) (params : List Ty) (returns : Ty) : Method :=
  method name [v] params (some returns) none

/-- Locates definitions: types from the first line on, methods behind them. -/
def located (types : List TypeDecl) (methods : List Method) : Prelude where
  types := types.zipIdx.map fun (decl, i) => { decl with loc := some (placeOf i) }
  methods := methods.zipIdx.map fun (m, i) => { m with loc := placeOf (types.length + i) }

/-- The builtin types: the tower of numbers, truth values, texts, the absent value, functions,
    vectors and types as values. -/
def builtinTypes : List TypeDecl :=
  [ abstractType "Number" "Any"
  , abstractType "Real" "Number"
  , abstractType "Integer" "Real"
  , abstractType "AbstractFloat" "Real"
  , leafType "Int" "Integer"
  , leafType "Float" "AbstractFloat"
  , leafType "Bool" "Any"
  , abstractType "AbstractString" "Any"
  , leafType "String" "AbstractString"
  , leafType "Nothing" "Any"
  , leafType "Function" "Any"
  , containerType "Vector"
  , containerType "Type" ]

/-- A variable for some kind of numbers. -/
def numberVar : TypeVar := ⟨"T", .abstract "Number"⟩

/-- A variable for any type. -/
def anyVar : TypeVar := ⟨"T", .any⟩

/-- The methods of an arithmetic operator: on numbers of one kind, and on mixed numbers. -/
def arithmetic (name : String) : List Method :=
  [ generic name numberVar [numberVar.toTy, numberVar.toTy] numberVar.toTy
  , plain name [Ty.int, Ty.float] Ty.float
  , plain name [Ty.float, Ty.int] Ty.float ]

/-- The methods of an order operator: on real numbers and on texts. -/
def ordering (name : String) : List Method :=
  [ plain name [.abstract "Real", .abstract "Real"] Ty.bool
  , plain name [Ty.string, Ty.string] Ty.bool ]

/-- The builtin methods. -/
def builtinMethods : List Method :=
  let vectorT := Ty.vector anyVar.toTy
  arithmetic "+"
  ++ arithmetic "-"
  ++ [ generic "-" numberVar [numberVar.toTy] numberVar.toTy ]
  ++ arithmetic "*"
  ++ [ plain "*" [Ty.string, Ty.string] Ty.string
     , plain "/" [.abstract "Real", .abstract "Real"] Ty.float
     , plain "%" [Ty.int, Ty.int] Ty.int
     , generic "^" numberVar [numberVar.toTy, Ty.int] numberVar.toTy ]
  ++ ordering "<" ++ ordering "<=" ++ ordering ">" ++ ordering ">="
  ++ [ plain "==" [.any, .any] Ty.bool
     , plain "!=" [.any, .any] Ty.bool
     , plain "!" [Ty.bool] Ty.bool
     , plain "length" [Ty.string] Ty.int
     , plain "length" [.concrete "Vector" []] Ty.int
     , generic "getindex" anyVar [vectorT, Ty.int] anyVar.toTy
     , plain "getindex" [Ty.string, Ty.int] Ty.string
     , generic "setindex!" anyVar [vectorT, anyVar.toTy, Ty.int] vectorT
     , generic "push" anyVar [vectorT, anyVar.toTy] vectorT
     , plain "string" [.any] Ty.string
     , plain "println" [.any] Ty.nothing
     , method "convert" [] [.concrete "Type" [], .any] none (some .convert) ]

/-- The prelude that every source unit starts from. -/
def builtin : Prelude := located builtinTypes builtinMethods

end Prelude

end Multimethod
