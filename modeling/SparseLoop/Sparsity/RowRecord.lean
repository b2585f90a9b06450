import SparseLoop.Index.Map

/-!
# Records of one sparse row

While loops are recorded, each row of a sparse result notes where its
contributions come from: from independents read at the iteration, from
independents that stay fixed, or from temporaries.  A contribution inside a
loop is noted with its location at the iteration.

The locations of a column form a list by iteration.  It reaches up to the last
noted iteration, and an iteration without a note holds `unknownLocation`.
-/

namespace SparseLoop

/-- Where the contributions to one row come from. -/
structure RowRecord where
  /-- For each tape column: its location at each iteration. -/
  indexedPositions : IndexMap (List Nat) := ∅
  /-- For each model column: its location at each iteration. -/
  nonIndexedPositions : IndexMap (List Nat) := ∅
  /-- The model columns evaluated once, outside the loop. -/
  nonIndexedColumns : IndexSet := ∅
  /-- For each model column: the temporaries it depends on. -/
  temporaryColumns : IndexMap IndexSet := ∅
deriving DecidableEq, Repr

namespace RowRecord

/-- The location at an iteration without a note. -/
def unknownLocation : Nat :=
  UInt64.size - 1

/-- The locations with one more note. -/
def note (locations : List Nat) (iteration location : Nat) : List Nat :=
  let missing := iteration + 1 - locations.length
  (locations ++ List.replicate missing unknownLocation).set iteration location

/-- The table with a note for a column. -/
def noteColumn (table : IndexMap (List Nat))
    (column iteration location : Nat) : IndexMap (List Nat) :=
  table.alter column fun locations =>
    note (locations.getD []) iteration location

/-- Notes a location of an independent read at the iteration. -/
def recordIndexed (record : RowRecord) (tapeColumn iteration location : Nat) :
    RowRecord :=
  { record with
    indexedPositions :=
      noteColumn record.indexedPositions tapeColumn iteration location }

/-- Notes a location of an independent that stays fixed. -/
def recordNonIndexed (record : RowRecord) (column iteration location : Nat) :
    RowRecord :=
  { record with
    nonIndexedPositions :=
      noteColumn record.nonIndexedPositions column iteration location
    nonIndexedColumns := record.nonIndexedColumns.insert column }

/-- Notes that a column depends on a temporary. -/
def recordTemporary (record : RowRecord) (column temporary : Nat) :
    RowRecord :=
  { record with
    temporaryColumns := record.temporaryColumns.alter column fun known =>
      (known.getD ∅).insert temporary }

/-- Whether nothing is noted. -/
def isEmpty (record : RowRecord) : Bool :=
  record.indexedPositions.isEmpty && record.nonIndexedPositions.isEmpty &&
    record.nonIndexedColumns.isEmpty && record.temporaryColumns.isEmpty

end RowRecord

end SparseLoop
