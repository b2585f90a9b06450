import SparseLoop.Index.Set
import SparseLoop.Loop.Model
import SparseLoop.Operation.Graph

/-!
# The nodes around a loop body

A loop in an operation graph stands between a start node and an end node.  Its
body reads the independents of the tape: nodes that are indexed by the
iteration, then values fixed throughout the loop, then temporaries.  A result
with a pattern is wrapped in a node that stores it at the iteration.

The functions here add these nodes one kind at a time.
-/

namespace SparseLoop

open OperationGraph (Build)

/-- Whether a loop result replaces the value at its target or is added to it. -/
inductive StoreMode where
  | assign
  | accumulate
deriving DecidableEq, Repr

/-- The number of a mode in the node that stores a result. -/
def StoreMode.code : StoreMode → Nat
  | assign => 0
  | accumulate => 1

/-- A result of a loop body, with the pattern of its target if it has one. -/
structure LoopResult where
  node : Nat
  pattern : Option IndexPattern
deriving DecidableEq, Repr

namespace LoopModel

/-- Marks an indexed node that reads an independent. -/
def readsIndependent : Nat := 0

/-- Marks an indexed node that reads a dependent. -/
def readsDependent : Nat := 2

/-- Adds one indexed node per pattern, with slots counted from a first one. -/
def addIndexed (mark indexOperation : Nat) :
    Nat → List IndexPattern → Build (List Nat)
  | _, [] => pure []
  | slot, pattern :: rest => do
    let location ← Build.addIndependentPattern pattern slot
    let node ← Build.add .loopIndexedIndependent [mark, location]
      [.node indexOperation]
    let others ← addIndexed mark indexOperation (slot + 1) rest
    pure (node :: others)

/-- Adds the nodes that read the independents indexed by the iteration. -/
def addIndexedIndependents (model : LoopModel) (indexOperation : Nat) :
    Build (List Nat) := do
  let needed := model.indexedIndependents.length
  let provided := model.independentPatterns.length
  if provided < needed then
    throw (.slotOutOfRange .independentPatterns (needed - 1) provided)
  addIndexed readsIndependent indexOperation 0
    (model.independentPatterns.take needed)

/-- The nodes that the places of some slots name outside the loop. -/
def pick (table : SlotTable) (nodes : List Nat)
    (positions : List LoopPosition) : Except Failure (List Nat) :=
  positions.mapM fun position =>
    match nodes[position.outer]? with
    | some node => .ok node
    | none =>
      .error (.slotOutOfRange table position.outer nodes.length)

/-- The independents of the tape: the indexed ones, the fixed ones, and the
temporaries. -/
def independentVector (model : LoopModel)
    (indexed nonIndexed temporaries : List Nat) :
    Except Failure (List Nat) := do
  let needed := model.indexedIndependents.length
  if indexed.length < needed then
    throw (.slotOutOfRange .indexedIndependents (needed - 1) indexed.length)
  let fixed ←
    pick .nonIndexedIndependents nonIndexed model.nonIndexedIndependents
  let temporary ← pick .temporaries temporaries model.temporaries
  pure (indexed.take needed ++ fixed ++ temporary)

/-- Adds the nodes that read the dependents indexed by the iteration; their
slots follow those of the tape. -/
def addIndexedDependents (model : LoopModel) (indexOperation : Nat) :
    Build (List Nat) :=
  addIndexed readsDependent indexOperation model.tapeIndependentCount
    model.dependentPatterns

end LoopModel

namespace OperationGraph.Build

/-- Adds the start of a loop over an index declaration. -/
def startLoop (declaration iterations : Nat) : Build Nat :=
  add .loopStart [iterations] [.node declaration]

/-- Adds the node that stores a result at its pattern, or gives the result
itself if it has no pattern. -/
def storeResult (indexOperations : IndexSet) (mode : StoreMode)
    (result : LoopResult) : Build Nat := do
  let _ ← read (·.node result.node)
  match result.pattern with
  | none => pure result.node
  | some pattern =>
    let location ← addDependentPattern pattern
    add .loopIndexedDependent [location, mode.code]
      ((result.node :: indexOperations.toList).map .node)

/-- Adds the end of a loop, after the nodes that store its results. -/
def endLoop (start : Nat) (results : List LoopResult)
    (indexOperations : IndexSet) (mode : StoreMode) : Build Nat := do
  let opening ← read (·.node start)
  if opening.kind ≠ .loopStart then
    throw (.notALoopStart start)
  let stored ← results.mapM (storeResult indexOperations mode)
  add .loopEnd [start] (stored.map .node)

end OperationGraph.Build

end SparseLoop
