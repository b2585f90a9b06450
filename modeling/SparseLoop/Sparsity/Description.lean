import SparseLoop.Index.Map

/-!
# Usage descriptions

A sparse result array is filled by functions that each provide a few entries.
A row function provides the elements of one row.  The function of a loop group
is called with a key, for instance a column, and provides the elements that the
group has for this key.  An element is a small number that is local to the row
or key; the description says where in the result array it lands.

A row or key may be flagged as ordered.  Then its elements lie one after the
other in the result array, from the position of element zero.  `orderedStart`
finds this position and checks the flag against the recorded positions.
-/

namespace SparseLoop

/-- The elements that one group provides, by key. -/
abbrev KeyElements :=
  IndexMap IndexSet

/-- For each row or key: the positions of each of its elements. -/
abbrev Locations :=
  IndexMap (List IndexSet)

/-- Which functions provide a sparse result, and where its entries lie. -/
structure Sparsity where
  /-- The rows that can be asked for alone, with their result positions. -/
  elements : IndexMap (List Nat) := ∅
  /-- The groups of each loop, with the elements they provide. -/
  loopGroups : IndexMap (IndexMap KeyElements) := ∅
  /-- The elements that row functions provide. -/
  rowElements : IndexMap IndexSet := ∅
  locations : Locations
  /-- Whether the elements of a row or key lie one after the other. -/
  ordered : IndexMap Bool
  /-- The length of the result array. -/
  entryCount : Nat
deriving DecidableEq, Repr

/-- A group of a loop with the elements it provides. -/
structure LoopGroup where
  loop : Nat
  group : Nat
  elements : KeyElements
deriving DecidableEq, Repr

/-- All groups of a description, by loop and then by group. -/
def Sparsity.groups (sparsity : Sparsity) : List LoopGroup :=
  sparsity.loopGroups.entries.flatMap fun (loop, groups) =>
    groups.entries.map fun (group, elements) => ⟨loop, group, elements⟩

namespace Locations

/-- The only position of an element, if it has exactly one. -/
def position? (positions : List IndexSet) (element : Nat) : Option Nat :=
  match positions[element]?.map (·.toList) with
  | some [only] => some only
  | _ => none

/-- The number of positions of an element. -/
def count (positions : List IndexSet) (element : Nat) : Nat :=
  (positions[element]?.map (·.size)).getD 0

end Locations

end SparseLoop
