import SparseLoop.Failure
import SparseLoop.Index.Set
import SparseLoop.Range.Basic

/-!
# Compression of iteration sets

A guard should hold at the active iterations of a branch.  Some iterations
never reach the guard, because they do not occur or because an earlier branch
took them.  These are spare: the guard may give either answer there, and ranges
may extend over them.

The active and the spare iterations together fall into blocks of consecutive
integers.  A block with an active iteration gives one range, from its first to
its last active iteration.  A range of more than one iteration drops its lower
bound if the block begins at zero, and its upper bound if the block ends at the
last iteration.
-/

namespace SparseLoop

/-- A run of consecutive integers with the bounds of its active members. -/
structure IterationBlock where
  first : Nat
  last : Nat
  /-- The first and the last active member, if there is one. -/
  active : Option (Nat × Nat)
deriving DecidableEq, Repr

namespace IterationBlock

/-- The block of one iteration. -/
def single (iteration : Nat) (isActive : Bool) : IterationBlock where
  first := iteration
  last := iteration
  active := if isActive then some (iteration, iteration) else none

/-- The block with one more iteration in front. -/
def extend (iteration : Nat) (isActive : Bool) (block : IterationBlock) :
    IterationBlock where
  first := iteration
  last := block.last
  active :=
    if isActive then
      match block.active with
      | some (_, high) => some (iteration, high)
      | none => some (iteration, iteration)
    else
      block.active

/-- An iteration joins the block that begins just after it. -/
def addFront (marked : Nat × Bool) :
    List IterationBlock → List IterationBlock
  | [] => [single marked.1 marked.2]
  | block :: rest =>
    if block.first = marked.1 + 1 then
      block.extend marked.1 marked.2 :: rest
    else
      single marked.1 marked.2 :: block :: rest

/-- The blocks of an ascending list of iterations marked as active or spare. -/
def split (marked : List (Nat × Bool)) : List IterationBlock :=
  marked.foldr addFront []

/-- The range that a block gives, if it has an active iteration. -/
def range? (lastIteration : Nat) (block : IterationBlock) :
    Option IterationRange :=
  block.active.map fun (low, high) =>
    if low = high then
      ⟨low, high⟩
    else
      ⟨if block.first = 0 then 0 else low,
        if block.last = lastIteration then IterationRange.unbounded else high⟩

end IterationBlock

namespace IterationRange

/-- The iterations of two sets in order, with a mark on the active ones. -/
def mark (active spare : IndexSet) : List (Nat × Bool) :=
  (spare.union active).toList.map fun iteration =>
    (iteration, active.contains iteration)

/-- The ranges that hold at the active iterations and may hold at spare ones. -/
def cover (active spare : IndexSet) (lastIteration : Nat) :
    List IterationRange :=
  (IterationBlock.split (mark active spare)).filterMap
    (IterationBlock.range? lastIteration)

/-- The cover of a set of active iterations, which must not be empty. -/
def compress (active spare : IndexSet) (lastIteration : Nat) :
    Except Failure (List IterationRange) :=
  if active.isEmpty then
    .error .emptyActiveIterations
  else
    .ok (cover active spare lastIteration)

end IterationRange

end SparseLoop
