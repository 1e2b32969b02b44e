import Multimethod.Assoc
import Multimethod.CommandLine.Arguments
import Multimethod.CommandLine.Path
import Multimethod.CommandLine.Session
import Multimethod.Diagnosis
import Multimethod.Dispatch.Matching
import Multimethod.Dispatch.Table
import Multimethod.Environment.Basic
import Multimethod.Environment.Merge
import Multimethod.Environment.Narrowing
import Multimethod.Fault
import Multimethod.Frame
import Multimethod.Hierarchy
import Multimethod.Inference.Cache
import Multimethod.Inference.Call
import Multimethod.Inference.Construction
import Multimethod.Inference.Conversion
import Multimethod.Inference.Dispatching
import Multimethod.Inference.Eval
import Multimethod.Inference.Exec
import Multimethod.Inference.Field
import Multimethod.Inference.Interpret
import Multimethod.Inference.Run
import Multimethod.Inference.Session
import Multimethod.Json.Basic
import Multimethod.Lattice.Bounds
import Multimethod.Lattice.Subtype
import Multimethod.Lattice.Widening
import Multimethod.Location
import Multimethod.Lowering.Body
import Multimethod.Lowering.Classes
import Multimethod.Lowering.Compile
import Multimethod.Lowering.Scope
import Multimethod.Lowering.TypeText
import Multimethod.Lowering.Unit
import Multimethod.Main
import Multimethod.Prelude.Basic
import Multimethod.Prelude.Reader
import Multimethod.Profile.Basic
import Multimethod.Profile.Watcher
import Multimethod.Program.Expr
import Multimethod.Program.Method
import Multimethod.Proofs.Assoc
import Multimethod.Proofs.Dispatch.Coverage
import Multimethod.Proofs.Dispatch.Full
import Multimethod.Proofs.Dispatch.Lookup
import Multimethod.Proofs.Dispatch.Matching
import Multimethod.Proofs.Dispatch.Selection
import Multimethod.Proofs.Dispatch.Specificity
import Multimethod.Proofs.Environment.Declared
import Multimethod.Proofs.Environment.Merge
import Multimethod.Proofs.Environment.Narrowing
import Multimethod.Proofs.Environment.Order
import Multimethod.Proofs.Environment.Recombination
import Multimethod.Proofs.Frame
import Multimethod.Proofs.Hierarchy.Ancestry
import Multimethod.Proofs.Hierarchy.Height
import Multimethod.Proofs.Hierarchy.Tree
import Multimethod.Proofs.Inference.Balance
import Multimethod.Proofs.Inference.Broadening
import Multimethod.Proofs.Inference.Calls
import Multimethod.Proofs.Inference.Capacity
import Multimethod.Proofs.Inference.Consistency
import Multimethod.Proofs.Inference.Construction
import Multimethod.Proofs.Inference.Conversion
import Multimethod.Proofs.Inference.Counting
import Multimethod.Proofs.Inference.DeclaredReturns
import Multimethod.Proofs.Inference.DispatchErrors
import Multimethod.Proofs.Inference.Ending
import Multimethod.Proofs.Inference.Entries
import Multimethod.Proofs.Inference.Entry
import Multimethod.Proofs.Inference.Expansion
import Multimethod.Proofs.Inference.FieldReads
import Multimethod.Proofs.Inference.Filing
import Multimethod.Proofs.Inference.Fixpoint
import Multimethod.Proofs.Inference.Forgetting
import Multimethod.Proofs.Inference.Grounding
import Multimethod.Proofs.Inference.Heads
import Multimethod.Proofs.Inference.Jumping
import Multimethod.Proofs.Inference.Keeping
import Multimethod.Proofs.Inference.Keys
import Multimethod.Proofs.Inference.Kinds
import Multimethod.Proofs.Inference.KindsOfBodies
import Multimethod.Proofs.Inference.KindsOfCalls
import Multimethod.Proofs.Inference.KindsOfEnvironments
import Multimethod.Proofs.Inference.KindsOfPrograms
import Multimethod.Proofs.Inference.Lasting
import Multimethod.Proofs.Inference.Lockstep
import Multimethod.Proofs.Inference.Loops
import Multimethod.Proofs.Inference.Making
import Multimethod.Proofs.Inference.Memo
import Multimethod.Proofs.Inference.Passes
import Multimethod.Proofs.Inference.Places
import Multimethod.Proofs.Inference.Postfixpoint
import Multimethod.Proofs.Inference.Probe
import Multimethod.Proofs.Inference.Reached
import Multimethod.Proofs.Inference.Recalling
import Multimethod.Proofs.Inference.Recursion
import Multimethod.Proofs.Inference.Reentry
import Multimethod.Proofs.Inference.Refusal
import Multimethod.Proofs.Inference.Rejecting
import Multimethod.Proofs.Inference.Repeating
import Multimethod.Proofs.Inference.Routes
import Multimethod.Proofs.Inference.Scripts
import Multimethod.Proofs.Inference.Sealing
import Multimethod.Proofs.Inference.Signatures
import Multimethod.Proofs.Inference.Splitting
import Multimethod.Proofs.Inference.Stack
import Multimethod.Proofs.Inference.Tracing
import Multimethod.Proofs.Inference.Transparency
import Multimethod.Proofs.Inference.Typing
import Multimethod.Proofs.Inference.UnboundNames
import Multimethod.Proofs.Inference.Variables
import Multimethod.Proofs.Inference.Watching
import Multimethod.Proofs.Lattice.Bounding
import Multimethod.Proofs.Lattice.Difference
import Multimethod.Proofs.Lattice.Erasure
import Multimethod.Proofs.Lattice.Join
import Multimethod.Proofs.Lattice.Meet
import Multimethod.Proofs.Lattice.Nearest
import Multimethod.Proofs.Lattice.Order
import Multimethod.Proofs.Lattice.Overlap
import Multimethod.Proofs.Lattice.Positions
import Multimethod.Proofs.Lattice.Rising
import Multimethod.Proofs.Lattice.Structural
import Multimethod.Proofs.Lattice.Subtype
import Multimethod.Proofs.Lattice.Widening
import Multimethod.Proofs.Lowering.Admission
import Multimethod.Proofs.Lowering.Annotations
import Multimethod.Proofs.Lowering.Classes
import Multimethod.Proofs.Lowering.Declarations
import Multimethod.Proofs.Lowering.Literals
import Multimethod.Proofs.Lowering.Supertypes
import Multimethod.Proofs.Lowering.Units
import Multimethod.Proofs.Lowering.Variables
import Multimethod.Proofs.Profile.Debouncing
import Multimethod.Proofs.Profile.Timers
import Multimethod.Proofs.Report.Pruning
import Multimethod.Proofs.Report.Reading
import Multimethod.Proofs.Rounds
import Multimethod.Proofs.Text.Units
import Multimethod.Proofs.Ty.Admitted
import Multimethod.Proofs.Ty.Apart
import Multimethod.Proofs.Ty.Canonical
import Multimethod.Proofs.Ty.Cases
import Multimethod.Proofs.Ty.Ground
import Multimethod.Proofs.Ty.Identity
import Multimethod.Proofs.Ty.Scoped
import Multimethod.Proofs.Ty.Spelling
import Multimethod.Proofs.Ty.Substitution
import Multimethod.Proofs.Ty.Union
import Multimethod.Proofs.Ty.Variables
import Multimethod.Rendering
import Multimethod.Report.Basic
import Multimethod.Report.Structured
import Multimethod.Report.Text
import Multimethod.Surface.Grammar.Accesses
import Multimethod.Surface.Grammar.Binders
import Multimethod.Surface.Grammar.Classes
import Multimethod.Surface.Grammar.Declarations
import Multimethod.Surface.Grammar.Functions
import Multimethod.Surface.Grammar.Items
import Multimethod.Surface.Grammar.Modules
import Multimethod.Surface.Grammar.Naming
import Multimethod.Surface.Grammar.Operators
import Multimethod.Surface.Grammar.Parser
import Multimethod.Surface.Grammar.Primary
import Multimethod.Surface.Grammar.Productions
import Multimethod.Surface.Grammar.Statements
import Multimethod.Surface.Grammar.Targets
import Multimethod.Surface.Grammar.Types
import Multimethod.Surface.Parse
import Multimethod.Surface.Position
import Multimethod.Surface.Scan
import Multimethod.Surface.Token
import Multimethod.Surface.Tree
import Multimethod.Text.Names
import Multimethod.Text.Numeral
import Multimethod.Text.Rounding
import Multimethod.Text.Units
import Multimethod.Ty.Basic
import Multimethod.Ty.Cases
import Multimethod.Ty.Union
import Multimethod.Ty.Variables
