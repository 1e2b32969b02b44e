import Multimethod.Surface.Grammar.Naming

/-!
# Productions

The recursive productions of the grammar, as a record: each part of the grammar is a step that
takes the productions it descends into, and the grammar as a whole is tied together at the
end, by the depth to which it may still descend.
-/

namespace Multimethod.Surface

/-- Where a statement stands. -/
structure Place where
  allowsDeclaration : Bool
  allowsFunction : Bool
  allowsLabeledFunction : Bool
  /-- Whether resources may be declared. -/
  allowsResource : Bool
  isToplevel : Bool
  /-- Whether functions that are declared here may belong to the place alone. -/
  isBlock : Bool

namespace Place

/-- A place in the list of items of a unit. -/
def toplevel : Place := ⟨true, true, true, false, true, false⟩

/-- A place in the list of items of a namespace. -/
def inNamespace : Place := ⟨true, true, true, true, true, true⟩

/-- A place in the statement list of a body. -/
def body (strict : Bool) : Place := ⟨true, true, !strict, true, false, false⟩

/-- A place in the statement list of a block within a body. -/
def block (strict : Bool) : Place := ⟨true, true, !strict, true, false, true⟩

/-- A place in the statement list of a case. -/
def choice (strict : Bool) : Place := ⟨true, true, !strict, false, false, true⟩

/-- A place for a single statement that may also be a function. -/
def branch (strict allowsLabeledFunction : Bool) : Place :=
  ⟨false, !strict, !strict && allowsLabeledFunction, false, false, false⟩

/-- A place for a single statement. -/
def single : Place := ⟨false, false, false, false, false, false⟩

end Place

/-- The recursive productions of the grammar. -/
structure Productions where
  /-- An expression without commas. With `shared` its doubts are left to the expression
      around; an `item` of parentheses may carry the marks of a parameter. -/
  assign : (shared item : Bool) → Parser Expr
  /-- An operand with the operators in front of it; one that is `isInner` follows another
      operator. -/
  operand : (isInner : Bool) → Parser Expr
  /-- A primary expression with the accesses to it, and with calls if it `mayCall`. -/
  accessed : (mayCall : Bool) → Parser Expr
  /-- A primary expression. -/
  primary : Parser Expr
  /-- A property of an object, with the place of its name if it sets the prototype. -/
  property : Parser (Property × Option Position)
  /-- A type. -/
  typeExpr : Parser TypeExpr
  /-- A type without infix operators. -/
  typeOperand : Parser TypeExpr
  /-- What a declaration binds, without its annotation. -/
  binder : Parser Binder
  /-- A statement or a declaration. -/
  statement : Place → Parser Item

namespace Grammar

open Surface.Parser

/-- An expression without commas, in which `in` is an operator. -/
def assignAllowIn (g : Productions) (shared item : Bool) : Parser Expr :=
  allowIn (g.assign shared item)

/-- The rest of a comma-separated sequence. -/
def sequenceRest (g : Productions) (first : Expr) (start : Position) : Parser Expr := do
  if ← atMark "," then
    let _ ← collect do
      if ← eat "," then return some (← g.assign true false) else return none
    pure (.other "SequenceExpression" start)
  else pure first

/-- An expression. -/
def expression (g : Productions) : Parser Expr :=
  allowIn <| withoutDoubts do
    let start ← here
    let first ← g.assign false false
    sequenceRest g first start

/-- An expression in the first clause of a loop. Its doubts are told. -/
def loopHead (g : Productions) : Parser (Expr × Doubts) :=
  within (fun c => { c with allowsIn := false }) <| collectDoubts do
    let start ← here
    let first ← g.assign true false
    sequenceRest g first start

/-- Fails at anything but a type annotation. -/
def ascription (g : Productions) : Parser TypeExpr :=
  inType do
    expect ":"
    g.typeExpr

/-- A type annotation, if there is one. -/
def ascription? (g : Productions) : Parser (Option TypeExpr) := do
  if ← atMark ":" then return some (← ascription g) else return none

/-- The substitutions of a template, whose first piece is the current token. An invalid escape
    is noted unless the template is `tagged`. -/
def templateParts {α : Type} (substitution : Parser α) (tagged : Bool) : Parser (List α) :=
  collect do
    match (← token).lexeme with
    | .template isLast invalid =>
        if !tagged then
          for p in invalid do note (p.shifted 1)
        next
        if isLast then return none
        else
          let a ← substitution
          if !(← atMark "\x7d") then unexpected
          let start ← behindToken
          let piece ← scan do Scan.templateRest start (← Scan.bound) none
          modify fun s => { s with token := ⟨piece, start, s.scanner.position⟩ }
          return some a
    | _ => unexpected

/-! ## Modifiers -/

/-- Whether the body of a static initializer starts here. -/
def atStaticBlock : Parser Bool := do
  return (← atWord "static") && (← charAhead) == some '\x7b'

/-- Whether the current token may follow a modifier. -/
def followsModifier : Parser Bool := do
  let lexeme := (← token).lexeme
  match lexeme with
  | .mark m => return ["[", "\x7b", "*", "..."].contains m
  | .privateName _ => return true
  | _ => return lexeme.isPropertyName

/-- Passes a modifier, if what comes behind it allows the word to be one. -/
def modifier? (allowed : List String) (inClass seenStatic : Bool) : Parser (Option String) := do
  match (← token).lexeme with
  | .word text _ =>
      if isKeyword text && text != "in" && text != "const" then return none
      else if !allowed.contains text then return none
      else if seenStatic && text == "static" then return none
      else if inClass && (← atStaticBlock) then return none
      else
        let isModifier ← attemptIf do
          next
          if text != "static" && (← onNewLine) then return false
          else followsModifier
        return if isModifier then some text else none
  | _ => return none

/-- The modifiers that say from where a member can be accessed. -/
def accessModifiers : List String := ["public", "private", "protected"]

/-- Pairs of modifiers of which the first must not come behind the second. -/
def modifierOrder : List (String × String) :=
  accessModifiers.flatMap (fun m => [(m, "override"), (m, "static"), (m, "readonly")])
    ++ [("in", "out"), ("static", "readonly"), ("static", "override"), ("override", "readonly"),
        ("abstract", "override")]

/-- Pairs of modifiers that exclude each other. -/
def modifierConflicts : List (String × String) :=
  [("declare", "override"), ("static", "abstract")]

/-- Whether a modifier stands in a wrong relation to those seen before. -/
def isMisplaced (seen : List String) (m : String) : Bool :=
  seen.contains m
    || (accessModifiers.contains m && accessModifiers.any seen.contains)
    || modifierOrder.any (fun (a, b) => a == m && seen.contains b)
    || modifierConflicts.any fun (a, b) =>
        (a == m && seen.contains b) || (b == m && seen.contains a)

/-- The modifiers in front of a member, a parameter or a type parameter, in order. Those that
    are `refused` there, and those that are misplaced, are noted. -/
def modifiers (allowed refused : List String) (inClass : Bool) : Parser (List String) :=
  do
    let step := fun (seen : List String) => do
      let start ← here
      match ← modifier? (allowed ++ refused) inClass (seen.contains "static") with
      | none => pure (seen, false)
      | some m =>
          if isMisplaced seen m then note start
          if refused.contains m then note start
          pure (m :: seen, true)
    iterate step []

/-! ## Type parameters -/

/-- The modifiers of type parameters that some declarations refuse. -/
def memberModifiers : List String :=
  ["public", "private", "protected", "readonly", "declare", "abstract", "override"]

/-- Which modifiers the type parameters of a declaration may have. -/
inductive TypeParamStyle where
  /-- Those of a function or a method. -/
  | generic
  /-- Those of a type alias. -/
  | variant
  /-- Those of a class or an interface. -/
  | both

/-- The modifiers in front of a type parameter. -/
def typeParamModifiers : TypeParamStyle → Parser (List String)
  | .generic => modifiers ["const"] ["in", "out"] false
  | .variant => modifiers ["in", "out"] ("const" :: memberModifiers) false
  | .both => modifiers ["in", "out", "const"] memberModifiers false

/-- A type parameter. -/
def typeParam (g : Productions) (style : TypeParamStyle) : Parser TypeParamDecl := do
  let seen ← typeParamModifiers style
  let (n, _) ← name
  let bound ←
    if ← atKeyword "extends" then
      let bound ← inType do next; g.typeExpr
      pure (some bound)
    else pure none
  if ← atMark "=" then
    let _ ← inType do next; g.typeExpr
  pure ⟨n, seen.contains "out", bound⟩

/-- Type parameters in angle brackets, of which there must be one. -/
def typeParams (g : Productions) (style : TypeParamStyle) : Parser (List TypeParamDecl) := do
  let start ← here
  expect "<"
  let params ← listBefore (atMark ">") (typeParam g style)
  expect ">"
  if params.isEmpty then note start
  pure params

/-- Type parameters, if there are any. -/
def typeParams? (g : Productions) (style : TypeParamStyle) : Parser (List TypeParamDecl) := do
  if ← atMark "<" then typeParams g style else pure []

end Grammar

end Multimethod.Surface
