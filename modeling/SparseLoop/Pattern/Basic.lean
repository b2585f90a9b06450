import SparseLoop.Expression

/-!
# Index patterns

An index pattern is a closed form for a sequence of indices: the value at an
iteration is a slope times the iteration, plus an offset.  The generated code
computes with 64-bit words, and so does the pattern: `evaluate` wraps around.

`expression` is the same rule as a C expression over the iteration variable.
A falling pattern is written as its offset less a multiple of the iteration,
so that unsigned arithmetic passes through no negative value while the pattern
itself stays non-negative.  Signs are turned as words are, which leaves the
smallest word as it is.
-/

namespace SparseLoop

/-- The rule `slope * iteration + offset`; a slope of zero is a constant. -/
structure IndexPattern where
  slope : Int64
  offset : Int64
deriving DecidableEq, Repr

namespace IndexPattern

/-- The pattern that gives one index at every iteration. -/
def constant (index : Nat) : IndexPattern where
  slope := 0
  offset := Int64.ofNat index

/-- The value at an iteration, modulo two to the sixty-fourth. -/
def evaluate (pattern : IndexPattern) (iteration : Nat) : Int64 :=
  pattern.slope * Int64.ofNat iteration + pattern.offset

/-- A variable taken a number of times; one time is the variable alone. -/
def multiple {ν : Type} (factor : Int) (variableName : ν) : Expression ν :=
  if factor = 1 then
    .name variableName
  else
    .binary .times (.number factor) (.name variableName)

/-- The pattern as an expression over the iteration variable. -/
def expression {ν : Type} (pattern : IndexPattern) (iteration : ν) :
    Expression ν :=
  let slope := pattern.slope.toInt
  let offset := pattern.offset.toInt
  let scaled := multiple slope iteration
  if slope = 0 then
    .number offset
  else if slope < 0 then
    .binary .minus (.number offset) (multiple (-pattern.slope).toInt iteration)
  else if 0 < offset then
    .binary .plus scaled (.number offset)
  else if offset < 0 then
    .binary .minus scaled (.number (-pattern.offset).toInt)
  else
    scaled

end IndexPattern

end SparseLoop
