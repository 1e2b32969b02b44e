import Multimethod.Dispatch.Table
import Multimethod.Lowering.Unit
import Multimethod.Prelude.Basic
import Multimethod.Surface.Parse

/-!
# Compiled units

From the text of a source unit to what the analysis reads. Every unit starts from the prelude.
-/

namespace Multimethod

open Dispatch Lowering Surface

/-- A source unit in the core language, with all types and methods that it knows. -/
structure CompiledUnit where
  program : Program
  hierarchy : Hierarchy
  /-- The methods of the prelude and, behind them, those of the unit. -/
  table : MethodTable

/-- The types that every unit starts from. -/
def Prelude.hierarchy : Checked Hierarchy :=
  Hierarchy.initial.declareAll Prelude.builtin.types

/-- Parses a source unit. -/
def parseUnit (text file : String) : Checked SourceUnit :=
  match SourceUnit.parse text with
  | .ok unit => .ok unit
  | .error p => malformed .syntaxError ⟨file, p.line, p.column⟩

/-- Compiles the text of a source unit. -/
def compile (text file : String) : Checked CompiledUnit := do
  let unit ← parseUnit text file
  let (program, h) ← lowerUnit file (← Prelude.hierarchy) unit
  return ⟨program, h, .ofMethods (Prelude.builtin.methods ++ program.methods)⟩

end Multimethod
