import SparseLoop.Index.Map
import SparseLoop.Pattern.Basic

/-!
# Detection of patterns

A detector looks for a closed form of a sequence, or of a map from iterations
to indices.  It may decline, and then the generated code falls back to tables
or to branches.  The rest of the library works with any detector.

The detector of the library is `Detector.affine`.  It takes the slope between
the first two points and accepts it if every point lies on the line.  The slope
has no word if the smallest word is to be divided by minus one; then detection
stops, and so does whoever has asked for it.
-/

namespace SparseLoop

/-- A service that finds closed forms, or declines. -/
structure Detector where
  /-- A closed form of a map from iterations to indices. -/
  ofPoints : IndexMap Nat → Option IndexPattern
  /-- A closed form of a sequence indexed from zero. -/
  ofSequence : List Nat → Option IndexPattern

namespace Detector

/-- The detector that reads a sequence as a map from its positions. -/
def overPoints (detect : IndexMap Nat → Option IndexPattern) : Detector where
  ofPoints := detect
  ofSequence values := detect (IndexMap.ofSequence values)

/-- The step in the iteration and in the index between two points. -/
def step (first second : Nat × Nat) : Int64 × Int64 :=
  (Int64.ofNat second.1 - Int64.ofNat first.1,
    Int64.ofNat second.2 - Int64.ofNat first.2)

/-- Whether a pattern gives every point its index. -/
def fits (pattern : IndexPattern) (points : IndexMap Nat) : Bool :=
  points.entries.all fun (iteration, index) =>
    pattern.evaluate iteration == Int64.ofNat index

/-- What comes of a search for a line. -/
inductive Detection where
  /-- The program stops, because the slope has no word. -/
  | stops
  | declines
  | finds (pattern : IndexPattern)
deriving DecidableEq, Repr

/-- The pattern that was found. -/
def Detection.pattern? : Detection → Option IndexPattern
  | finds pattern => some pattern
  | _ => none

/-- The line through the first two points, if it has a whole slope and every
point lies on it; the constant, if there is one point. -/
def affineLine (points : IndexMap Nat) : Detection :=
  match points.entries with
  | [] => .declines
  | [(_, index)] => .finds (IndexPattern.constant index)
  | first :: second :: _ =>
    let (run, rise) := step first second
    if run = -1 ∧ rise = Int64.minValue then
      .stops
    else if rise % run != 0 then
      .declines
    else
      let slope := rise / run
      let offset := Int64.ofNat first.2 - slope * Int64.ofNat first.1
      let pattern : IndexPattern := ⟨slope, offset⟩
      if fits pattern points then .finds pattern else .declines

/-- The constant of the first point, if all points have its index. -/
def commonValue (points : IndexMap Nat) : Option IndexPattern :=
  match points.values with
  | [] => none
  | first :: rest =>
    if rest.all (· == first) then some (IndexPattern.constant first) else none

/-- Finds lines with a whole slope. -/
def affine : Detector :=
  overPoints fun points => (affineLine points).pattern?

/-- Declines always. -/
def never : Detector where
  ofPoints _ := none
  ofSequence _ := none

/-- Finds constants only. -/
def constant : Detector :=
  overPoints commonValue

end Detector

end SparseLoop
