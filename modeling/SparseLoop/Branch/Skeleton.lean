import SparseLoop.Failure
import SparseLoop.Index.Map

/-!
# Skeletons of branches

A skeleton is an if/else construct without its conditions: an ordered row of
branches, each with the iterations on which it is active and with the work that
it guards.  Branches are ordered by the first iteration of each.

Work that is active on the same iterations shares a skeleton, so that the
generated branching is written once.  `find?` looks for the skeleton of a shape
among those made before.
-/

namespace SparseLoop

/-- The iterations of each branch, by the first iteration of the branch. -/
abbrev BranchShape :=
  IndexMap IndexSet

/-- One branch: when it is active, and what it guards. -/
structure Branch (α : Type) where
  iterations : IndexSet
  body : α

/-- An if/else construct whose branches guard values of type `α`. -/
structure Skeleton (α : Type) where
  /-- The branches, by their first iterations. -/
  branches : IndexMap (Branch α)
  /-- The graph node that ends the construct, once there is one. -/
  endNode : Option Nat := none

instance {α : Type} : Inhabited (Skeleton α) :=
  ⟨{ branches := ∅ }⟩

namespace Skeleton

variable {α : Type}

/-- Whether the branches are active on the iterations of a shape, in order. -/
def hasShape (skeleton : Skeleton α) (shape : BranchShape) : Bool :=
  skeleton.branches.values.map (·.iterations) == shape.values

/-- The position of the first skeleton that has a shape. -/
def find? (skeletons : List (Skeleton α)) (shape : BranchShape) : Option Nat :=
  skeletons.findIdx? (·.hasShape shape)

/-- The branch that starts at an iteration. -/
def branch (skeleton : Skeleton α) (first : Nat) :
    Except Failure (Branch α) :=
  match skeleton.branches.get? first with
  | some found => .ok found
  | none => .error (.branchShapeMismatch first)

/-- The skeleton with the branch that starts at an iteration changed. -/
def modifyBranch (skeleton : Skeleton α) (first : Nat)
    (change : Branch α → Branch α) : Except Failure (Skeleton α) := do
  let found ← skeleton.branch first
  pure { skeleton with
    branches := skeleton.branches.insert first (change found) }

end Skeleton

end SparseLoop
