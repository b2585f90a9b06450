import SparseLoop.Expression
import SparseLoop.Range.Basic

/-!
# Guards

A list of ranges is written in the generated code as a condition on the
iteration variable: one test for each range, joined by "or".  A test leaves out
a bound that every word satisfies.  A test with both bounds stands in
parentheses if it is not the only one.

No ranges give no expression, and their text is empty.
-/

namespace SparseLoop

namespace IterationRange

/-- The test that a variable lies in a range. -/
def test {ν : Type} (range : IterationRange) (variableName : ν)
    (isOnly : Bool) : Expression ν :=
  let iteration := Expression.name variableName
  let above := Expression.binary .atLeast iteration (.number range.low)
  let below := Expression.binary .atMost iteration (.number range.high)
  if range.low = range.high then
    .binary .equals iteration (.number range.low)
  else if range.low = 0 ∧ range.high = unbounded then
    .number 1
  else if range.low = 0 then
    below
  else if range.high = unbounded then
    above
  else if isOnly then
    .binary .both above below
  else
    .grouped (.binary .both above below)

/-- The condition that a variable lies in one of several ranges. -/
def guard? {ν : Type} (ranges : List IterationRange) (variableName : ν) :
    Option (Expression ν) :=
  match ranges with
  | [] => none
  | [only] => some (only.test variableName true)
  | first :: rest =>
    some <| rest.foldl
      (fun condition range =>
        .binary .either condition (range.test variableName false))
      (first.test variableName false)

/-- The text of the condition over a variable of a given name. -/
def guardText (ranges : List IterationRange) (variableName : String) : String :=
  match guard? ranges variableName with
  | none => ""
  | some condition => condition.text id

end IterationRange

end SparseLoop
