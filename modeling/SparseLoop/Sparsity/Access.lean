import SparseLoop.Branch.Skeleton
import SparseLoop.Pattern.Basic

/-!
# Access to the result array

A group function is called once per key, in the order of the keys; the position
of a key in this order is its local iteration.  A `GroupAccess` says how what a
call provides reaches the result array.

If every key is ordered and the starts follow a pattern, the call writes in
place.  Otherwise it writes into a scratch buffer, and each element is copied
to its position.  Keys with equally many elements form a bucket.  An element of
a bucket is copied along two patterns over the local iteration, one for its
place in the scratch buffer and one for its position in the result, or, where
there are no such patterns, in sections of keys that have them.
-/

namespace SparseLoop

/-- Keys over which an element follows one pattern on either side. -/
structure ElementSection where
  keys : IndexSet
  /-- The position in the result array. -/
  target : IndexPattern
  /-- The place in the scratch buffer. -/
  source : IndexPattern
deriving DecidableEq, Repr

/-- How one element of a bucket is copied. -/
structure ElementCopy where
  /-- The position in the result array, if it has a pattern. -/
  target : Option IndexPattern
  /-- The place in the scratch buffer, if it has a pattern. -/
  source : Option IndexPattern
  /-- The sections of the keys, unless both patterns are there. -/
  sections : List ElementSection
deriving DecidableEq, Repr

namespace ElementCopy

/-- The patterns of target and source, if both are there. -/
def direct? (element : ElementCopy) : Option (IndexPattern × IndexPattern) :=
  match element.target, element.source with
  | some target, some source => some (target, source)
  | _, _ => none

/-- The keys of each section, by the first key of the section. -/
def shape (element : ElementCopy) : BranchShape :=
  IndexMap.ofList <| element.sections.filterMap fun part =>
    part.keys.min?.map fun first => (first, part.keys)

end ElementCopy

/-- Keys with equally many elements, and how each element is copied. -/
structure ElementBucket where
  keys : IndexSet
  elements : List ElementCopy
deriving DecidableEq, Repr

/-- How the calls of one group function reach the result array. -/
structure GroupAccess where
  /-- The key of each local iteration. -/
  keys : List Nat
  /-- The pattern of the keys, if there is one. -/
  keyPattern : Option IndexPattern
  /-- The pattern of the starts; set exactly for calls that write in place. -/
  start : Option IndexPattern
  /-- The buckets, by their number of elements, for calls that do not. -/
  buckets : IndexMap ElementBucket
deriving DecidableEq, Repr

/-- The access of every group, by iteration count, loop and group. -/
abbrev CallPlan :=
  IndexMap (IndexMap (IndexMap GroupAccess))

namespace CallPlan

/-- The plan with the access of a group set. -/
def put (plan : CallPlan) (count loop group : Nat) (access : GroupAccess) :
    CallPlan :=
  plan.alter count fun loops =>
    (loops.getD ∅).alter loop fun groups =>
      (groups.getD ∅).insert group access

/-- All groups of a plan with their iteration counts, in order. -/
def calls (plan : CallPlan) : List (Nat × Nat × Nat × GroupAccess) :=
  plan.entries.flatMap fun (count, loops) =>
    loops.entries.flatMap fun (loop, groups) =>
      groups.entries.map fun (group, access) => (count, loop, group, access)

end CallPlan

end SparseLoop
