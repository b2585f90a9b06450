import SparseLoop.Sparsity.Order
import SparseLoop.Sparsity.Section

/-!
# Grouping of loop calls

Grouping decides for every group of every loop how its calls reach the result
array.  The calls are then arranged by the number of keys of their group, since
groups with equally many keys share one counted loop.

Whether grouping succeeds depends on the recorded positions and order flags
only.  The detector chooses among ways to write the same entries.
-/

namespace SparseLoop

/-- A key of a bucket: its local iteration and, for each element it provides,
the element and its position in the result. -/
structure BucketRow where
  iteration : Nat
  key : Nat
  entries : List (Nat × Nat)
deriving DecidableEq, Repr

namespace BucketRow

/-- The point of the element at a rank among those of the key. -/
def point? (row : BucketRow) (rank : Nat) : Option ElementPoint :=
  row.entries[rank]?.map fun (element, position) =>
    { iteration := row.iteration, key := row.key,
      target := position, source := element }

/-- A key with the position of each element, which must be single. -/
def locate (locations : Locations) (iteration key : Nat)
    (provided : IndexSet) : Except Failure BucketRow := do
  let positions ← locations.find key
  let entries ← provided.toList.mapM fun element =>
    match Locations.position? positions element with
    | some position => .ok (element, position)
    | none =>
      .error (.ambiguousLocation key element
        (Locations.count positions element))
  pure { iteration, key, entries }

end BucketRow

namespace ElementBucket

/-- The bucket of some keys that provide equally many elements. -/
def ofRows (detector : Detector) (count : Nat) (rows : List BucketRow) :
    ElementBucket where
  keys := IndexSet.ofList (rows.map (·.key))
  elements := (List.range count).map fun rank =>
    ElementCopy.ofPoints detector (rows.filterMap (·.point? rank))

end ElementBucket

namespace KeyElements

/-- The keys with their local iterations and the elements they provide. -/
def rows (elements : KeyElements) : List (Nat × Nat × IndexSet) :=
  elements.entries.zipIdx.map fun ((key, provided), iteration) =>
    (iteration, key, provided)

/-- The numbers of elements that occur, in ascending order. -/
def counts (elements : KeyElements) : List Nat :=
  (IndexSet.ofList (elements.values.map (·.size))).toList

/-- The bucket of the keys that provide a number of elements. -/
def bucket (elements : KeyElements) (locations : Locations)
    (detector : Detector) (count : Nat) : Except Failure ElementBucket := do
  let chosen := (rows elements).filter fun (_, _, provided) =>
    provided.size == count
  let located ← chosen.mapM fun (iteration, key, provided) =>
    BucketRow.locate locations iteration key provided
  pure (ElementBucket.ofRows detector count located)

/-- All buckets of a group, by their number of elements. -/
def buckets (elements : KeyElements) (locations : Locations)
    (detector : Detector) : Except Failure (IndexMap ElementBucket) := do
  let found ← (counts elements).mapM fun count => do
    pure (count, ← bucket elements locations detector count)
  pure (IndexMap.ofList found)

/-- The starts of all keys, in order; every key must be ordered. -/
def starts (elements : KeyElements) (locations : Locations) :
    Except Failure (List Nat) :=
  elements.entries.mapM fun (key, provided) =>
    locations.orderedStart key provided

end KeyElements

namespace LoopGroup

/-- How the calls of a group reach the result array. -/
def access (group : LoopGroup) (sparsity : Sparsity) (detector : Detector) :
    Except Failure GroupAccess := do
  let keys := group.elements.keyList
  if keys.isEmpty then
    throw (.emptyGroup group.loop group.group)
  let flags ← keys.mapM sparsity.isOrdered
  let start ←
    if flags.all id then
      detector.ofSequence <$>
        KeyElements.starts group.elements sparsity.locations
    else
      pure none
  let buckets ←
    if start.isSome then
      pure ∅
    else
      KeyElements.buckets group.elements sparsity.locations detector
  pure { keys, keyPattern := detector.ofSequence keys, start, buckets }

end LoopGroup

/-- How every group of a description reaches the result array. -/
def Sparsity.callPlan (sparsity : Sparsity) (detector : Detector) :
    Except Failure CallPlan := do
  let accesses ← sparsity.groups.mapM fun group => do
    pure (group, ← group.access sparsity detector)
  pure <| accesses.foldl
    (fun plan (group, access) =>
      CallPlan.put plan access.keys.length group.loop group.group access)
    ∅

end SparseLoop
