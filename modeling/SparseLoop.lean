import SparseLoop.Branch.Condition
import SparseLoop.Command.World
import SparseLoop.Loop.Insertion
import SparseLoop.Main
import SparseLoop.Sparsity.RowRecord
import SparseLoop.Proofs.Operation.Evaluation
import SparseLoop.Proofs.Operation.Survey
import SparseLoop.Proofs.Operation.Hoisting
import SparseLoop.Proofs.Index
import SparseLoop.Proofs.Pattern.Detection
import SparseLoop.Proofs.Sparsity.Sections
import SparseLoop.Proofs.Sparsity.Grouping
import SparseLoop.Proofs.Sparsity.Plan
import SparseLoop.Proofs.Sparsity.Coverage
import SparseLoop.Proofs.Sparsity.OrderFlags
import SparseLoop.Proofs.Sparsity.Groupable
import SparseLoop.Proofs.Expression
import SparseLoop.Proofs.Pattern.Value
import SparseLoop.Proofs.Range.Compression
import SparseLoop.Proofs.Range.Guard
import SparseLoop.Proofs.Routine.Chain
import SparseLoop.Proofs.Branch.Skeleton
import SparseLoop.Proofs.Routine.Skeletons
import SparseLoop.Proofs.Routine.CopyBack
import SparseLoop.Proofs.Routine.Statement
import SparseLoop.Proofs.Routine.Control
import SparseLoop.Proofs.Routine.Invocation
import SparseLoop.Proofs.Routine.Scattering
import SparseLoop.Proofs.Routine.Trace
import SparseLoop.Proofs.Routine.Run
import SparseLoop.Proofs.Routine.Generation
import SparseLoop.Proofs.Routine.Calls
import SparseLoop.Proofs.Routine.Dispatch
import SparseLoop.Proofs.Execution.Landing
import SparseLoop.Proofs.Execution.Memory
import SparseLoop.Proofs.Execution.Steps
import SparseLoop.Proofs.Execution.Correctness
import SparseLoop.Proofs.Execution.Stepwise
import SparseLoop.Proofs.Execution.Pieces
import SparseLoop.Proofs.Execution.Pointer
import SparseLoop.Proofs.Execution.ScratchBounds
import SparseLoop.Proofs.Operation.Extension
import SparseLoop.Proofs.Outcome
import SparseLoop.Proofs.Branch.Condition
import SparseLoop.Proofs.Branch.Reuse
import SparseLoop.Proofs.Construction
import SparseLoop.Proofs.Operation.Marks
import SparseLoop.Proofs.Json.Spelling
import SparseLoop.Proofs.Json.Reading
import SparseLoop.Proofs.Json.Coding
import SparseLoop.Proofs.Request.Canonical
import SparseLoop.Proofs.Command.Arguments
import SparseLoop.Proofs.Command.FileSystem
import SparseLoop.Proofs.Command.Run
import SparseLoop.Proofs.Operation.Collection
import SparseLoop.Proofs.Operation.HoistOutcome
import SparseLoop.Proofs.Range.Exactness
import SparseLoop.Proofs.Range.Minimality
import SparseLoop.Proofs.Loop.Structure
import SparseLoop.Proofs.Expression.Reading
import SparseLoop.Proofs.Pattern.Text
import SparseLoop.Proofs.Range.Text
import SparseLoop.Proofs.Pattern.Affine
import SparseLoop.Proofs.Execution.ScratchDeclaration
import SparseLoop.Proofs.Sparsity.RowRecord
import SparseLoop.Proofs.Sparsity.FewestSections
import SparseLoop.Proofs.Execution.Prologue
import SparseLoop.Proofs.Expression.Variables
import SparseLoop.Proofs.Routine.Accesses
import SparseLoop.Proofs.Execution.IndexVariables
