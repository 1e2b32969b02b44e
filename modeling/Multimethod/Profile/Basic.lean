import Multimethod.Lowering.Compile
import Multimethod.Report.Basic

/-!
# Profiles

One run over the text of a source unit: it is compiled, every entry call is analysed on a fresh
cache, and the findings are collected in a report. Progress lines tell how far the run came.
-/

namespace Multimethod

open Inference

/-- What one run over a source unit came to. -/
structure Profile where
  log : List String
  report : Checked Report

/-- What the analysis of a compiled unit has to know. -/
def CompiledUnit.setting (unit : CompiledUnit) (options : Options) : Setting where
  hierarchy := unit.hierarchy
  table := unit.table
  globals := globalEnvironment unit.program.globals
  options := options

/-- Analyses all entry calls of a compiled unit. -/
def CompiledUnit.run (unit : CompiledUnit) (options : Options) : Checked RunResult :=
  Inference.run (unit.setting options) unit.program.file unit.program.entries

namespace Profile

/-- The progress line behind a successful compilation. -/
def compiledLine (path : String) (program : Program) : String :=
  s!"Compiled {path}: {program.methods.length} methods, {program.entries.length} entry calls"

/-- The progress line at the end of a run. The clock stands still during a run. -/
def finishedLine (path : String) (cacheEntries errorCount : Nat) : String :=
  s!"Profiled {path} in 0ms ({cacheEntries} cache entries, {errorCount} errors)"

/-- Runs over the text of the source unit at a path. -/
def ofText (path text : String) (options : Options) : Profile :=
  match compile text path with
  | .error fault => ⟨[], .error fault⟩
  | .ok unit =>
      let compiled := compiledLine path unit.program
      match unit.run options with
      | .error fault => ⟨[compiled], .error fault⟩
      | .ok result =>
          let report := Report.ofRun result
          ⟨[compiled, finishedLine path result.cacheEntries report.errorCount], .ok report⟩

end Profile

end Multimethod
