import Multimethod.Inference.Session
import Multimethod.Text.Numeral

/-!
# Arguments

What the arguments of the command line ask for. They are read from left to right; of several
that say the same thing the last one counts. A faulty argument ends the reading.
-/

namespace Multimethod.CommandLine

open Inference

/-- The form in which a report is printed. -/
inductive Format where
  | text
  | json
  deriving DecidableEq

/-- What the command line asks for. -/
structure Command where
  /-- The path of the source unit, as it is given. -/
  path : String
  format : Format
  isWatching : Bool
  options : Options

/-- Why the arguments cannot be used. -/
inductive Refusal where
  | noArguments
  | notPositive (option : String)
  | unknownOption (arg : String)
  | noPath
  | unknownFormat (format : String)
  deriving DecidableEq

/-- The wording of a refusal. -/
def Refusal.message? : Refusal → Option String
  | noArguments => none
  | notPositive option => some s!"Error: {option} expects a positive integer"
  | unknownOption arg => some s!"Error: Unknown option '{arg}'"
  | noPath => some "Error: No file path provided"
  | unknownFormat format => some s!"Error: Unknown format '{format}'"

/-- Whether a refusal is followed by the usage. -/
def Refusal.showsUsage : Refusal → Bool
  | noArguments => true
  | unknownOption _ => true
  | _ => false

/-- The lines that explain the usage. -/
def usage : List String :=
  [ "Usage: npx tsx scripts/profile.ts <file.tpr> [options]"
  , ""
  , "Options:"
  , "  --format=text     Call-tree report (default)"
  , "  --format=json     Machine-readable JSON output"
  , "  --watch           Re-run whenever the file changes"
  , "  --max-depth=N     Maximum abstract call depth"
  , "  --max-entries=N   Maximum inference cache entries"
  , "  --widening=N      Distinct types before widening" ]

/-- The arguments that are read so far. -/
structure Reading where
  path : String := ""
  format : String := "text"
  isWatching : Bool := false
  options : Options := {}

/-- What stands behind `mark` in an argument that starts with it. -/
def behind? (mark arg : String) : Option String :=
  let text := arg.toList
  let start := mark.toList
  if start.isPrefixOf text then some (String.ofList (text.drop start.length)) else none

/-- The options that take a number, with what the number changes. -/
def limits : List (String × (Options → Nat → Options)) :=
  [ ("--max-depth", fun o n => { o with maxCallDepth := n })
  , ("--max-entries", fun o n => { o with maxCacheEntries := n })
  , ("--widening", fun o n => { o with wideningThreshold := n }) ]

/-- Reads an option that takes a number, if the argument is one. -/
def readLimit? (options : Options) (arg : String) : Option (Except Refusal Options) :=
  limits.findSome? fun (name, set) =>
    (behind? (name ++ "=") arg).map fun text =>
      match Numeral.positive? text with
      | some n => .ok (set options n)
      | none => .error (.notPositive name)

/-- Reads an argument. -/
def readArgument (found : Reading) (arg : String) : Except Refusal Reading :=
  match behind? "--format=" arg with
  | some format => .ok { found with format := format }
  | none =>
      if arg == "--watch" then .ok { found with isWatching := true }
      else
        match readLimit? found.options arg with
        | some (.ok options) => .ok { found with options := options }
        | some (.error refusal) => .error refusal
        | none =>
            if arg.startsWith "-" then .error (.unknownOption arg)
            else .ok { found with path := arg }

/-- Reads all arguments. -/
def readArguments (args : List String) : Except Refusal Command := do
  if args.isEmpty then throw .noArguments
  let found ← args.foldlM readArgument {}
  if found.path.isEmpty then throw .noPath
  let command := fun (format : Format) =>
    { path := found.path
      format := format
      isWatching := found.isWatching
      options := found.options : Command }
  match found.format with
  | "text" => return command .text
  | "json" => return command .json
  | other => throw (.unknownFormat other)

end Multimethod.CommandLine
