/-!
# Paths

The absolute form of a path: parts that stand for the directory itself are left out, and a step
up cancels the part in front of it.
-/

namespace Multimethod.CommandLine

/-- Goes on from a directory, whose parts are given innermost first, by one part of a path. -/
def enter (parts : List String) (part : String) : List String :=
  match part with
  | "" => parts
  | "." => parts
  | ".." => parts.drop 1
  | _ => part :: parts

/-- The parts of a path. -/
def partsOf (path : String) : List String :=
  path.splitOn "/"

/-- Whether a path starts at the root. -/
def isAbsolute (path : String) : Bool :=
  path.startsWith "/"

/-- The absolute form of a path, seen from a directory. -/
def absolutePath (directory path : String) : String :=
  let base := if isAbsolute path then [] else (partsOf directory).foldl enter []
  let parts := (partsOf path).foldl enter base
  let root := if isAbsolute path || isAbsolute directory then "/" else ""
  root ++ "/".intercalate parts.reverse

end Multimethod.CommandLine
