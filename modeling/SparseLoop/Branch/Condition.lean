import SparseLoop.Branch.Skeleton
import SparseLoop.Operation.Graph
import SparseLoop.Range.Compression

/-!
# Branches in an operation graph

A skeleton takes form in a graph as a chain of nodes: for each branch a
condition on the index, and a node that opens the branch and follows the node
of the branch before it.  The iterations of earlier branches never reach a
later condition and are spare there.

`findOrCreate` makes this chain for a shape that no earlier skeleton has, and
otherwise gives the earlier skeleton back without touching the graph.
-/

namespace SparseLoop

open OperationGraph (Build)

/-- Adds a condition that guards iterations on an index operation. -/
def OperationGraph.Build.addCondition (active spare : IndexSet)
    (lastIteration indexOperation : Nat) : Build Nat := do
  let ranges ← read fun _ =>
    IterationRange.compress active spare lastIteration
  let _ ← read (·.node indexOperation)
  add .indexCondition (IterationRange.bounds ranges) [.node indexOperation]

/-- Adds the node that opens a branch: the first one of its chain, or the one
that follows the branch before it. -/
def OperationGraph.Build.openBranch (previous : Option Nat)
    (condition : Nat) : Build Nat :=
  match previous with
  | none => add .startIf [] [.node condition]
  | some earlier => add .elseIf [] [.node earlier, .node condition]

namespace Skeleton

/-- Adds the conditions and the nodes of the branches of a shape, after the
branches that took the spare iterations. -/
def createBranches (lastIteration indexOperation : Nat) :
    IndexSet → Option Nat → List (Nat × IndexSet) →
      Build (List (Nat × Branch Nat))
  | _, _, [] => pure []
  | spare, previous, (first, iterations) :: rest => do
    let condition ←
      Build.addCondition iterations spare lastIteration indexOperation
    let node ← Build.openBranch previous condition
    let others ← createBranches lastIteration indexOperation
      (spare.union iterations) (some node) rest
    pure ((first, ⟨iterations, node⟩) :: others)

/-- The first skeleton of a shape, or a new one at the end of the list.  Gives
its position and the list. -/
def findOrCreate (skeletons : List (Skeleton Nat)) (shape : BranchShape)
    (indexOperation lastIteration : Nat) :
    Build (Nat × List (Skeleton Nat)) := do
  match find? skeletons shape with
  | some position => pure (position, skeletons)
  | none =>
    let branches ←
      createBranches lastIteration indexOperation ∅ none shape.entries
    let skeleton : Skeleton Nat := { branches := IndexMap.ofList branches }
    pure (skeletons.length, skeletons ++ [skeleton])

/-- Adds the node that ends a skeleton, unless there is one.  Gives the node
and the skeleton that knows it. -/
def close (skeleton : Skeleton Nat) : Build (Nat × Skeleton Nat) := do
  match skeleton.endNode with
  | some node => pure (node, skeleton)
  | none =>
    let node ← Build.add .endIf []
      (skeleton.branches.values.map fun branch => .node branch.body)
    pure (node, { skeleton with endNode := some node })

end Skeleton

end SparseLoop
