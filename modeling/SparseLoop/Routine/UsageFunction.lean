import SparseLoop.Routine.CopyBack
import SparseLoop.Sparsity.Grouping

/-!
# Usage functions

The usage function provides the whole sparse result.  It calls the row
functions first and then, for each number of keys, the group functions with
that many keys in one counted loop.  Groups of a single key are called without
a loop.

A call writes to where the output pointer points: into the result array, or
into the scratch buffer.  A `UsageFunction` is the plan of all calls: where
each writes, whether the pointer has to be set before it, and which copies
follow.  The pointer is not set again while it is known to point to the scratch
buffer.
-/

namespace SparseLoop

/-- Where the output pointer points during a call. -/
inductive Destination where
  /-- An entry of the result array. -/
  | result (position : Expression Symbol)
  /-- The beginning of the scratch buffer. -/
  | scratch
deriving DecidableEq, Repr

/-- A call of a row function. -/
structure RowCall where
  row : Nat
  destination : Destination
  /-- Whether the output pointer is set before the call. -/
  setsPointer : Bool
  copies : List Copy
deriving DecidableEq, Repr

/-- A call of a group function. -/
structure GroupCall where
  loop : Nat
  group : Nat
  destination : Destination
  /-- Whether the output pointer is set before the call. -/
  setsPointer : Bool
  key : Expression Symbol
  copyBack : Option (Chain BucketCopies)
deriving DecidableEq, Repr

/-- The calls of the groups with equally many keys. -/
structure Round where
  /-- The number of keys, and so of iterations. -/
  count : Nat
  calls : List GroupCall
deriving DecidableEq, Repr

/-- Whether the calls of a round stand outside any loop. -/
def Round.isUnrolled (round : Round) : Bool :=
  round.count == 1

/-- The constant table of the keys of a group without a key pattern. -/
structure KeyTable where
  loop : Nat
  group : Nat
  length : Nat
  keys : List Nat
deriving DecidableEq, Repr

/-- The plan of a usage function. -/
structure UsageFunction where
  /-- The length of the result array. -/
  entryCount : Nat
  /-- The length of the scratch buffer; with none there is no buffer. -/
  scratchSize : Nat
  keyTables : List KeyTable
  rowCalls : List RowCall
  rounds : List Round
deriving DecidableEq, Repr

namespace CallPlan

/-- The number of recorded elements of a row or key. -/
def width (sparsity : Sparsity) (key : Nat) : Except Failure Nat :=
  List.length <$> sparsity.locations.find key

/-- The length of the widest array that reaches the result through the scratch
buffer, or zero if everything is written in place. -/
def scratchSize (plan : CallPlan) (sparsity : Sparsity) :
    Except Failure Nat := do
  let rowWidths ← sparsity.rowElements.keyList.mapM fun row => do
    if ← sparsity.isOrdered row then
      pure 0
    else
      width sparsity row
  let buffered := plan.calls.filter fun (_, _, _, access) =>
    access.start.isNone
  let keyWidths ← buffered.mapM fun (_, _, _, access) =>
    access.keys.mapM (width sparsity)
  pure ((rowWidths ++ keyWidths.flatten).foldl max 0)

/-- The tables of the groups that repeat and have no key pattern. -/
def keyTables (plan : CallPlan) : List KeyTable :=
  plan.calls.filterMap fun (count, loop, group, access) =>
    if 1 < count && access.keyPattern.isNone then
      some { loop, group, length := count, keys := access.keys }
    else
      none

end CallPlan

namespace RowCall

/-- The copies of the elements of an unordered row to all their positions. -/
def copiesOf (row : Nat) (positions : List IndexSet) (provided : IndexSet) :
    Except Failure (List Copy) := do
  let copies ← provided.toList.mapM fun element =>
    match positions[element]? with
    | none => .error (.ambiguousLocation row element 0)
    | some targets =>
      .ok <| targets.toList.map fun (target : Nat) =>
        { target := .number target, source := .number element : Copy }
  pure copies.flatten

/-- The call of a row function, given whether the output pointer is known to
point to the scratch buffer. -/
def make (sparsity : Sparsity) (atScratch : Bool) (row : Nat)
    (provided : IndexSet) : Except Failure RowCall := do
  let positions ← sparsity.locations.find row
  if ← sparsity.isOrdered row then
    let start ← sparsity.locations.orderedStart row provided
    pure
      { row, destination := .result (.number start), setsPointer := true,
        copies := [] }
  else
    let copies ← copiesOf row positions provided
    pure { row, destination := .scratch, setsPointer := !atScratch, copies }

/-- The calls of row functions one after the other. -/
def makeAll (sparsity : Sparsity) :
    Bool → List (Nat × IndexSet) → Except Failure (List RowCall)
  | _, [] => .ok []
  | atScratch, (row, provided) :: rest => do
    let call ← make sparsity atScratch row provided
    let others ← makeAll sparsity (call.destination == .scratch) rest
    pure (call :: others)

end RowCall

namespace GroupCall

/-- The key of a call at the current local iteration. -/
def keyOf (loop group : Nat) (access : GroupAccess) (isUnrolled : Bool) :
    Except Failure (Expression Symbol) :=
  if isUnrolled then
    match access.keys.head? with
    | some only => .ok (.number only)
    | none => .error (.emptyGroup loop group)
  else
    match access.keyPattern with
    | some pattern => .ok (pattern.expression .iteration)
    | none => .ok (.entry (.keyTable loop group) (.name .iteration))

/-- The call of a group function, given whether the output pointer is known to
point to the scratch buffer. -/
def make (isUnrolled atScratch : Bool) (loop group : Nat)
    (access : GroupAccess) : Except Failure GroupCall := do
  let key ← keyOf loop group access isUnrolled
  match access.start with
  | some start =>
    pure
      { loop, group, destination := .result (start.current isUnrolled),
        setsPointer := true, key, copyBack := none }
  | none =>
    let copyBack ← access.copyBack isUnrolled
    pure
      { loop, group, destination := .scratch, setsPointer := !atScratch, key,
        copyBack }

/-- The calls of group functions one after the other. -/
def makeAll (isUnrolled : Bool) :
    Bool → List (Nat × Nat × GroupAccess) → Except Failure (List GroupCall)
  | _, [] => .ok []
  | atScratch, (loop, group, access) :: rest => do
    let call ← make isUnrolled atScratch loop group access
    let others ← makeAll isUnrolled (call.destination == .scratch) rest
    pure (call :: others)

end GroupCall

namespace Round

/-- Whether the output pointer is known to point to the scratch buffer after
some calls. -/
def endsAtScratch (atScratch : Bool) (calls : List GroupCall) : Bool :=
  match calls.getLast? with
  | none => atScratch
  | some call => call.destination == .scratch

/-- The rounds of a call plan one after the other.  At the beginning of a loop
body nothing is known about the output pointer. -/
def makeAll :
    Bool → List (Nat × IndexMap (IndexMap GroupAccess)) →
      Except Failure (List Round)
  | _, [] => .ok []
  | atScratch, (count, loops) :: rest => do
    let isUnrolled := count == 1
    let known := isUnrolled && atScratch
    let accesses := loops.entries.flatMap fun (loop, groups) =>
      groups.entries.map fun (group, access) => (loop, group, access)
    let calls ← GroupCall.makeAll isUnrolled known accesses
    let others ← makeAll (endsAtScratch known calls) rest
    pure ({ count, calls } :: others)

end Round

namespace UsageFunction

/-- The name of the variable that counts elements. -/
def counterName : String :=
  "e"

/-- Fails if an index variable has the name of the element counter. -/
def checkNames (options : Options) : Except Failure Unit := do
  if options.iterationName == counterName then
    throw (.reservedName options.iterationName)
  if options.keyName == counterName then
    throw (.reservedName options.keyName)

/-- The plan of the usage function of a description. -/
def make (sparsity : Sparsity) (plan : CallPlan) :
    Except Failure UsageFunction := do
  let scratchSize ← plan.scratchSize sparsity
  let rowCalls ← RowCall.makeAll sparsity false sparsity.rowElements.entries
  let atScratch :=
    match rowCalls.getLast? with
    | none => false
    | some call => call.destination == .scratch
  let rounds ← Round.makeAll atScratch plan.entries
  pure
    { entryCount := sparsity.entryCount, scratchSize,
      keyTables := plan.keyTables, rowCalls, rounds }

end UsageFunction

end SparseLoop
