import Multimethod.Surface.Grammar.Naming

/-!
# Targets

An assignment target or a parameter of an arrow function is first parsed as an expression.
Here expressions are checked for being targets: `markTarget` when an expression turns out to
be one, `checkTarget` when the construct around it is complete.
-/

namespace Multimethod.Surface.Grammar

open Surface.Parser

/-- The form of an assertion that a value is there. -/
def nonNullCast : String := "TSNonNullExpression"

/-- Whether an expression is a call whose result may be assigned to in sloppy code, where the
    assignment fails when it is reached. -/
def isPlainCall : Expr → Bool
  | .call callee _ _ => callee.construct != "Import" && callee.construct != "Super"
  | _ => false

/-- Notes parentheses around what must not have them as the target of an assignment. -/
def checkParens (inner : Expr) : Parser Unit :=
  match inner.bare with
  | .name _ _ => pure ()
  | .call _ _ _ => pure ()
  | .field _ _ _ => pure ()
  | .privateField _ _ => pure ()
  | .optionalField _ _ => pure ()
  | .index _ _ _ => pure ()
  | _ => note inner.start

/-- Notes an operand that cannot take the rest of a list or, unless `allowPattern`, of an
    object. -/
def checkRestOperand (allowPattern : Bool) : Expr → Parser Unit
  | .parens inner => checkRestOperand allowPattern inner
  | .name _ _ => pure ()
  | .field _ _ _ => pure ()
  | .privateField _ _ => pure ()
  | .index _ _ _ => pure ()
  | .array _ _ p => if allowPattern then pure () else note p
  | .object _ _ p => if allowPattern then pure () else note p
  | .cast _ inner _ => checkRestOperand false inner
  | e => note e.start

mutual

/-- Notes what keeps an expression from being a target; `isAssigned` tells a target of an
    assignment from a parameter, which stands in no parentheses and has no type operator. Values
    that are assigned by default are no part of it. -/
def markTarget (isAssigned : Bool) : Expr → Parser Unit
  | .parens inner => do
      if !inner.bare.isCast then
        if isAssigned then checkParens inner else note inner.start
      markTarget isAssigned inner
  | .cast _ inner p => do
      if !isAssigned then note p
      markTarget isAssigned inner
  | .array elements trailing _ => markElements isAssigned trailing elements
  | .object properties trailing _ => markProperties isAssigned trailing properties
  | .assign op (.annotated operand _ _) _ stop _ => do
      if op != "=" then note stop
      if !isAssigned then markTarget isAssigned operand
  | .assign op target _ stop _ => do
      if op != "=" then note stop
      markTarget isAssigned target
  | _ => pure ()

/-- Notes what keeps the elements of an array, or parameters, from being targets. -/
def markElements (isAssigned : Bool) (trailing : Option Position) : List Expr → Parser Unit
  | [] => pure ()
  | .spread operand p :: rest => do
      checkRestOperand true operand
      markTarget isAssigned operand
      if !rest.isEmpty then note p
      else for c in trailing do note c
      markElements isAssigned trailing rest
  | .rest _ p :: rest => do
      if !rest.isEmpty then note p
      else for c in trailing do note c
      markElements isAssigned trailing rest
  | .annotated (.spread operand _) _ _ :: rest => do
      checkRestOperand true operand
      markTarget isAssigned operand
      markElements isAssigned trailing rest
  | .annotated operand _ _ :: rest => do
      markTarget isAssigned operand
      markElements isAssigned trailing rest
  | e :: rest => do
      markTarget isAssigned e
      markElements isAssigned trailing rest

/-- Notes what keeps the properties of an object from being targets. -/
def markProperties (isAssigned : Bool) (trailing : Option Position) :
    List Property → Parser Unit
  | [] => pure ()
  | .value e :: rest => do
      markTarget isAssigned e
      markProperties isAssigned trailing rest
  | .method key :: rest => do
      note key
      markProperties isAssigned trailing rest
  | .spread operand p :: rest => do
      checkRestOperand false operand
      markTarget isAssigned operand
      if !rest.isEmpty then note p
      else for c in trailing do note c
      markProperties isAssigned trailing rest

end

/-- How a target stands in what is around it. -/
structure TargetPlace where
  /-- A parameter, as opposed to something that is assigned to. -/
  isBinding : Bool
  /-- The whole left side of an assignment, without parentheses. -/
  isBareLeft : Bool
  /-- Whether the expression was marked as a target. -/
  isMarked : Bool
  /-- Whether a call may stand there in sloppy code. -/
  allowsCall : Bool

namespace TargetPlace

/-- The place of a parameter. -/
def param : TargetPlace := ⟨true, false, true, false⟩

/-- The place of what is counted up or down. -/
def counted : TargetPlace := ⟨false, false, false, true⟩

/-- The place of what a loop assigns to. -/
def looped : TargetPlace := ⟨false, false, true, true⟩

/-- The left side of an assignment by an operator. Those that may skip the assignment refuse
    calls. -/
def left (op : String) (isBare : Bool) : TargetPlace :=
  ⟨false, isBare, op == "=", op != "||=" && op != "&&=" && op != "??="⟩

/-- The place behind a type operator or within parentheses. -/
def inner (place : TargetPlace) : TargetPlace :=
  { place with isBareLeft := false }

/-- The place of a part of a destructuring target. -/
def part (place : TargetPlace) : TargetPlace :=
  { place with isBareLeft := false, allowsCall := false }

end TargetPlace

/-- What an access is found to be. No name is bound by one. -/
def accessFindings (place : TargetPlace) (p : Position) : List Finding :=
  if place.isBinding then [.fault p] else []

mutual

/-- What the check of a target finds in it, in order. A call may be assigned to in sloppy code
    only. -/
def targetFindings (strict : Bool) (place : TargetPlace) : Expr → List Finding
  | .parens operand => targetFindings strict place.inner operand
  | .name n p => [.name n p]
  | .field _ _ p => accessFindings place p
  | .privateField _ p => accessFindings place p
  | .index _ _ p => accessFindings place p
  | .optionalField _ p => [.failure p]
  | .array elements _ p =>
      if place.isMarked then elementFindings strict place.part elements else [.fault p]
  | .object properties _ p =>
      if place.isMarked then propertyFindings strict place.part properties else [.fault p]
  | .assign _ target _ _ p =>
      if place.isMarked then targetFindings strict place.inner target else [.fault p]
  | .spread operand _ => targetFindings strict place.inner operand
  | .cast construct operand p =>
      if construct == nonNullCast || place.isBinding || !place.isBareLeft then
        targetFindings strict place.inner operand
      else [.fault p]
  | .annotated operand _ _ => if place.isBinding then targetFindings strict place operand else []
  | .rest names _ => names.map fun (n, p) => .name n p
  | .hole => []
  | e => if place.allowsCall && isPlainCall e && !strict then [] else [.fault e.start]

/-- What the check of targets finds in them, one after the other. -/
def elementFindings (strict : Bool) (place : TargetPlace) : List Expr → List Finding
  | [] => []
  | e :: rest => targetFindings strict place e ++ elementFindings strict place rest

/-- What the check of the properties of a destructuring target finds in them, one after the
    other. -/
def propertyFindings (strict : Bool) (place : TargetPlace) : List Property → List Finding
  | [] => []
  | .value e :: rest => targetFindings strict place e ++ propertyFindings strict place rest
  | .method _ :: rest => propertyFindings strict place rest
  | .spread operand _ :: rest =>
      targetFindings strict place operand ++ propertyFindings strict place rest

end

/-- Notes what cannot be assigned to. Access through what may be missing ends the parse. -/
def checkTarget (place : TargetPlace) (e : Expr) : Parser Unit := do
  let strict := (← context).strict
  for finding in targetFindings strict place e do
    match finding with
    | .name n p => if strict && isStrictTarget n then note p
    | .fault p => note p
    | .failure p => throw p

mutual

/-- Whether an expression may be a target, by its form. -/
def mayBeTarget (isBinding : Bool) : Expr → Bool
  | .parens inner => mayBeTarget isBinding inner
  | .name _ _ => true
  | .rest _ _ => true
  | .hole => true
  | .spread operand _ => mayBeTarget false operand
  | .annotated operand _ _ => mayBeTarget isBinding operand
  | .object properties _ _ => mayAllBeTargets properties
  | .array elements _ _ => mayElementsBeTargets elements
  | .assign op _ _ _ _ => op == "="
  | .field _ _ _ => !isBinding
  | .privateField _ _ => !isBinding
  | .optionalField _ _ => !isBinding
  | .index _ _ _ => !isBinding
  | _ => false

/-- Whether the properties of an object may be targets; a spread must come last. -/
def mayAllBeTargets : List Property → Bool
  | [] => true
  | .value e :: rest => mayBeTarget false e && mayAllBeTargets rest
  | .method _ :: _ => false
  | .spread operand _ :: rest => rest.isEmpty && mayBeTarget false operand

/-- Whether the elements of an array may be targets. -/
def mayElementsBeTargets : List Expr → Bool
  | [] => true
  | e :: rest => mayBeTarget false e && mayElementsBeTargets rest

end

end Multimethod.Surface.Grammar
