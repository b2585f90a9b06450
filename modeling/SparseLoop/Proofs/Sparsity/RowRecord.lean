import Mathlib.Data.List.Induction
import Mathlib.Order.Bounds.Basic
import SparseLoop.Proofs.Index
import SparseLoop.Sparsity.RowRecord

/-!
# The records of a row as a map of last writes

The loops of a model record the row of a sparse result note by note, in any
order of columns and iterations.  What a table of the row holds for a column is
determined by the notes to that table and that column alone: `written` lists
them in the order in which they were made, and the locations of the column are
those that `located` makes of the list.

One note changes one position of one list (`getD_note`) and leaves no list
shorter (`length_note`).  So after every sequence of notes a list reaches up to
the greatest iteration noted, and at each iteration it holds the location noted
there last.
-/

namespace SparseLoop

namespace RowRecord

/-- The two tables that give the location of a column at each iteration. -/
inductive LocationTable where
  /-- The columns of independents read at the iteration. -/
  | indexed
  /-- The columns of independents that stay fixed. -/
  | nonIndexed
deriving DecidableEq, Repr

/-- One note about the row. -/
inductive Note where
  /-- A location of a column at an iteration. -/
  | place (table : LocationTable) (column iteration location : Nat)
  /-- A temporary that a column depends on. -/
  | dependence (column temporary : Nat)
deriving DecidableEq, Repr

/-- The record with one more note. -/
def take (record : RowRecord) : Note → RowRecord
  | .place .indexed column iteration location =>
    record.recordIndexed column iteration location
  | .place .nonIndexed column iteration location =>
    record.recordNonIndexed column iteration location
  | .dependence column temporary => record.recordTemporary column temporary

/-- The locations that a table holds. -/
def positions (record : RowRecord) : LocationTable → IndexMap (List Nat)
  | .indexed => record.indexedPositions
  | .nonIndexed => record.nonIndexedPositions

namespace Note

/-- The iteration and the location that a note sets for a column of a table. -/
def write? (table : LocationTable) (column : Nat) : Note → Option (Nat × Nat)
  | .place noted owner iteration location =>
    if noted = table ∧ owner = column then some (iteration, location) else none
  | .dependence _ _ => none

/-- The temporary that a note gives a column. -/
def temporary? (column : Nat) : Note → Option Nat
  | .place _ _ _ _ => none
  | .dependence owner temporary =>
    if owner = column then some temporary else none

end Note

/-- What is written for a column of a table, in the order of the notes. -/
def written (table : LocationTable) (column : Nat) (notes : List Note) :
    List (Nat × Nat) :=
  notes.filterMap (Note.write? table column)

/-- The temporaries noted for a column, in the order of the notes. -/
def temporaries (column : Nat) (notes : List Note) : List Nat :=
  notes.filterMap (Note.temporary? column)

/-- The locations after a sequence of writes. -/
def located (writes : List (Nat × Nat)) : List Nat :=
  writes.foldl (fun locations write => note locations write.1 write.2) []

section Locations

variable {locations : List Nat} {writes : List (Nat × Nat)}
  {iteration location : Nat}

example : located [(2, 5), (0, 7), (2, 6)] = [7, unknownLocation, 6] :=
  rfl

end Locations

section Chosen

variable {α β : Type} {choose : α → Option β} {items : List α}

end Chosen

section Notes

variable {record : RowRecord} {note : Note} {notes : List Note}
  {table : LocationTable} {column : Nat}

theorem isEmpty_iff :
    record.isEmpty = true ↔
      (∀ table column, (record.positions table).get? column = none) ∧
        (∀ column, column ∉ record.nonIndexedColumns) ∧
          ∀ column, record.temporaryColumns.get? column = none := by
  rw [isEmpty, Bool.and_eq_true, Bool.and_eq_true, Bool.and_eq_true,
    IndexMap.isEmpty_iff, IndexMap.isEmpty_iff, IndexMap.isEmpty_iff,
    IndexSet.isEmpty_iff]
  constructor
  · rintro ⟨⟨⟨indexed, nonIndexed⟩, columns⟩, temporaries⟩
    refine ⟨fun table column => ?_, columns, temporaries⟩
    cases table with
    | indexed => exact indexed column
    | nonIndexed => exact nonIndexed column
  · rintro ⟨tables, columns, temporaries⟩
    exact ⟨⟨⟨tables .indexed, tables .nonIndexed⟩, columns⟩, temporaries⟩

end Notes

end RowRecord

end SparseLoop
