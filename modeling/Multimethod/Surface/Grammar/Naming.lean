import Multimethod.Surface.Grammar.Parser

/-!
# Naming

What the grammar checks of names: which of them the context reserves, which must not be bound,
and which private names a class declares. Some faults count only if the expression around
turns out to be the parameters of a function.
-/

namespace Multimethod.Surface.Parser

variable {α : Type}

/-! ## Heads -/

/-- Adds a fault to the heads around that it counts for, and tells whether it counts at
    once. -/
def addToHeads (p : Position) (isAsyncOnly : Bool) : List Head → List Head × Bool
  | [] => ([], false)
  | head :: outer =>
      match head.kind with
      | .expression => (head :: outer, false)
      | .params => (head :: outer, !isAsyncOnly)
      | .maybeParams isAsync =>
          let own := if isAsyncOnly && !isAsync then head.faults else p :: head.faults
          let (rest, isCertain) := addToHeads p isAsyncOnly outer
          ({ head with faults := own } :: rest, isCertain)

/-- Notes what no parameters may hold, or keeps it until it is known what it stands in. -/
def doubtInParams (p : Position) (isAsyncOnly : Bool) : Parser Unit := do
  let s ← get
  let (heads, isCertain) := addToHeads p isAsyncOnly s.heads
  set { s with heads := heads }
  if isCertain then note p

/-- Parses what may turn out to be of the kind `kind`. -/
def inHead (kind : HeadKind) (p : Parser α) : Parser α := do
  modify fun s => { s with heads := ⟨kind, []⟩ :: s.heads }
  let a ← p
  modify fun s => { s with heads := s.heads.drop 1 }
  pure a

/-- Drops a fault from the heads that may still be parameters. -/
def dropFromHeads (p : Position) : List Head → List Head
  | [] => []
  | head :: outer =>
      match head.kind with
      | .maybeParams _ =>
          { head with faults := head.faults.filter (·.offset != p.offset) }
            :: dropFromHeads p outer
      | _ => head :: outer

/-- Notes the faults of the innermost head, which are parameters indeed. -/
def confirmHead : Parser Unit := do
  match (← get).heads with
  | [] => pure ()
  | head :: outer =>
      for p in head.faults.reverse do note p
      let rest := head.faults.foldl (fun heads p => dropFromHeads p heads) outer
      modify fun s => { s with heads := head :: rest }

/-! ## Names -/

/-- The names that strict code does not bind. -/
def isStrictTarget (name : String) : Bool :=
  name == "eval" || name == "arguments"

/-- Notes a name that the context reserves. Where nothing is implemented no name is. -/
def checkReserved (name : String) (p : Position) (isBinding : Bool) : Parser Unit := do
  let c ← context
  if c.ambient then pure ()
  else if isKeyword name || name == "enum" then note p
  else if c.strict && (strictWords.contains name || (isBinding && isStrictTarget name)) then
    note p
  else
    match name with
    | "yield" => if c.allowsYield then note p
    | "await" =>
        if c.allowsAwait || c.receiver.inStaticBlock then note p else doubtInParams p true
    | "arguments" => if c.receiver.inClass && !c.receiver.inFunction then note p
    | _ => pure ()

/-- A name, which must not be reserved. A keyword in its place is noted. -/
def name : Parser (String × Position) := do
  let t ← token
  match t.lexeme with
  | .word text _ =>
      checkReserved text t.start false
      next
      pure (text, t.start)
  | _ => unexpected

/-- A name that may be any word. -/
def anyWord : Parser (String × Position) := do
  let t ← token
  match t.lexeme with
  | .word text _ =>
      skip
      pure (text, t.start)
  | _ => unexpected

/-- Notes a name that must not be bound: in strict code, which may have become so only behind
    the name, and as a variable of a block. -/
def checkBoundName (isLexical becameStrict : Bool) (bound : String × Position) :
    Parser Unit := do
  let (name, p) := bound
  let refused := isStrictTarget name || (becameStrict && strictWords.contains name)
  if (← context).strict && refused then note p
  if isLexical && name == "let" then note p

/-- Notes names that must not be bound. -/
def checkBoundNames (names : List (String × Position)) (isLexical : Bool) : Parser Unit := do
  for bound in names do checkBoundName isLexical false bound

/-- What the check of a target or of parameters finds in them. -/
inductive Finding where
  /-- A name that is bound or assigned to. -/
  | name (name : String) (start : Position)
  /-- What can be neither. -/
  | fault (start : Position)
  /-- An access through what may be missing, which ends the parse. -/
  | failure (start : Position)

/-- Notes parameters that must not be bound, and those that are repeated unless they may be. -/
def checkParams (params : List Finding) (mayRepeat becameStrict : Bool) : Parser Unit := do
  let mut seen : List String := []
  for finding in params do
    match finding with
    | .name n p =>
        checkBoundName false becameStrict (n, p)
        if !mayRepeat && seen.contains n then note p
        seen := n :: seen
    | .fault p => note p
    | .failure p => throw p

/-! ## Private names -/

/-- Adds a use of a private name to those that wait for its declaration. -/
def addPending (name : String) (p : Position) :
    List (String × Position) → List (String × Position)
  | [] => [(name, p)]
  | (other, q) :: rest =>
      if other == name then (name, p) :: rest else (other, q) :: addPending name p rest

/-- Uses a private name, which some class around must declare. -/
def usePrivate (name : String) (p : Position) : Parser Unit := do
  let s ← get
  if s.privates.any fun scope => (scope.declared.lookup name).isSome then pure ()
  else
    match s.privates with
    | [] => note p
    | scope :: outer =>
        let scope := { scope with pending := addPending name p scope.pending }
        set { s with privates := scope :: outer }

/-- Whether a private name may be declared besides what is known of it: an accessor whose
    counterpart is the only declaration so far. -/
def pairsUp (known : Option AccessorKind) (accessor : Option AccessorKind) : Bool :=
  match known, accessor with
  | some a, some b => a.isGetter != b.isGetter && a.isStatic == b.isStatic
  | _, _ => false

/-- Declares the private name at `p` in the class around. It must be new, unless it is an
    `accessor` that completes a pair. -/
def declarePrivate (name : String) (p : Position) (accessor : Option AccessorKind) :
    Parser Unit := do
  let s ← get
  match s.privates with
  | [] => pure ()
  | scope :: outer =>
      let pending := scope.pending.filter (·.1 != name)
      match scope.declared.lookup name with
      | none =>
          let scope := { declared := (name, accessor) :: scope.declared, pending := pending }
          set { s with privates := scope :: outer }
      | some known =>
          let declared :=
            if pairsUp known accessor then (name, none) :: scope.declared else scope.declared
          set { s with privates := { declared := declared, pending := pending } :: outer }
          if !pairsUp known accessor then note p

/-- Parses the body of a class. What it uses and does not declare is left to the class
    around, which keeps a use of its own. -/
def inPrivateScope (p : Parser α) : Parser α := do
  modify fun s => { s with privates := ⟨[], []⟩ :: s.privates }
  let a ← p
  let s ← get
  match s.privates with
  | [] => pure a
  | inner :: [] =>
      set { s with privates := [] }
      for (_, p) in inner.pending do note p
      pure a
  | inner :: scope :: outer =>
      let missing := inner.pending.filter fun (n, _) => (scope.pending.lookup n).isNone
      set { s with privates := { scope with pending := scope.pending ++ missing } :: outer }
      pure a

/-- Passes a private name. -/
def privateName : Parser (String × Position) := do
  let t ← token
  match t.lexeme with
  | .privateName text =>
      next
      pure (text, t.start)
  | _ => unexpected

end Multimethod.Surface.Parser
