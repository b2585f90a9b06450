import SparseLoop.Failure
import SparseLoop.Sparsity.Description

/-!
# Ordered rows and keys

The flag that a row or key is ordered is a promise about its recorded
positions: element zero has a single position, the start, and every provided
element lies as far behind the start as its number says.  The promise is
checked wherever it is used.

Positions are words of the machine, and so are the sums that the check forms: a
sum that leaves the words wraps.  A program built to check its sums stops at
such a sum, without a result.
-/

namespace SparseLoop

namespace Locations

/-- The recorded positions of the elements of a row or key. -/
def find (locations : Locations) (key : Nat) :
    Except Failure (List IndexSet) :=
  match locations.get? key with
  | some positions => .ok positions
  | none => .error (.missingLocation key)

/-- The position of element zero, which must be single. -/
def start (locations : Locations) (key : Nat) : Except Failure Nat := do
  match ← locations.find key with
  | [] => throw (.missingLocation key)
  | first :: _ =>
    match first.toList with
    | [position] => pure position
    | _ => throw (.unorderedArray key 0)

/-- Where the order puts an element behind a start. -/
def place (origin element : Nat) : Nat :=
  (origin + element) % UInt64.size

/-- The start of an ordered row or key, if every provided element lies where
the order puts it. -/
def orderedStart (locations : Locations) (key : Nat) (provided : IndexSet) :
    Except Failure Nat := do
  let positions ← locations.find key
  let origin ← locations.start key
  let displaced := provided.toList.find? fun element =>
    position? positions element != some (place origin element)
  match displaced with
  | none => pure origin
  | some element => throw (.unorderedArray key element)

end Locations

/-- Whether a row or key is flagged as ordered. -/
def Sparsity.isOrdered (sparsity : Sparsity) (key : Nat) :
    Except Failure Bool :=
  match sparsity.ordered.get? key with
  | some flag => .ok flag
  | none => .error (.missingOrderFlag key)

end SparseLoop
