/-!
# Ranges of iterations

A condition on the iteration is kept as a list of closed ranges: it holds at
an iteration that lies in one of them.  The largest 64-bit word as upper bound
means that a range has no end.

A node of an operation graph carries only a flat list of numbers, so a list of
ranges is also written as the list of its bounds.  Reading the bounds back is
total: a bound left over at the end is a range of one iteration.
-/

namespace SparseLoop

/-- The iterations from a lowest to a highest one. -/
structure IterationRange where
  low : Nat
  high : Nat
deriving DecidableEq, Repr

namespace IterationRange

/-- The upper bound of a range without end. -/
def unbounded : Nat :=
  UInt64.size - 1

/-- Whether an iteration lies in a range. -/
def contains (range : IterationRange) (iteration : Nat) : Bool :=
  range.low ≤ iteration && iteration ≤ range.high

/-- Whether an iteration lies in one of several ranges. -/
def covers (ranges : List IterationRange) (iteration : Nat) : Bool :=
  ranges.any (·.contains iteration)

/-- The bounds of several ranges, each low bound before its high bound. -/
def bounds (ranges : List IterationRange) : List Nat :=
  ranges.flatMap fun range => [range.low, range.high]

/-- The ranges with the given bounds; a last bound alone is a single iteration. -/
def ofBounds : List Nat → List IterationRange
  | [] => []
  | [only] => [⟨only, only⟩]
  | low :: high :: rest => ⟨low, high⟩ :: ofBounds rest

/-- Reading the bounds of ranges gives the ranges back. -/
@[simp]
theorem ofBounds_bounds (ranges : List IterationRange) :
    ofBounds (bounds ranges) = ranges := by
  induction ranges with
  | nil => rfl
  | cons first rest ih =>
    have step : bounds (first :: rest) =
        first.low :: first.high :: bounds rest := rfl
    rw [step, ofBounds, ih]

end IterationRange

end SparseLoop
