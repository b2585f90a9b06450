import SparseLoop.Pattern.Detector
import SparseLoop.Sparsity.Access

/-!
# Sections of an element

An element that does not follow one pattern over all keys of its bucket is
copied in sections.  A section is a run of consecutive keys, and it is made as
long as a detector finds patterns for both sides of the copy.

A detector may decline even a single key.  Then the section of this key is a
constant, so that each key lies in exactly one section whatever the detector
does.
-/

namespace SparseLoop

/-- One element at one key: where it is in the scratch buffer, and where it
lands. -/
structure ElementPoint where
  iteration : Nat
  key : Nat
  target : Nat
  source : Nat
deriving DecidableEq, Repr

/-- A section that still grows: its keys, and the points of either side. -/
structure OpenSection where
  keys : IndexSet := ∅
  targets : IndexMap Nat := ∅
  sources : IndexMap Nat := ∅

namespace OpenSection

/-- The section with one more point. -/
def add (part : OpenSection) (point : ElementPoint) : OpenSection where
  keys := part.keys.insert point.key
  targets := part.targets.insert point.iteration point.target
  sources := part.sources.insert point.iteration point.source

/-- Whether a detector finds a pattern for either side. -/
def followsPatterns (detector : Detector) (part : OpenSection) : Bool :=
  (detector.ofPoints part.targets).isSome &&
    (detector.ofPoints part.sources).isSome

/-- The pattern of some points, or the constant of the first of them. -/
def patternOf (detector : Detector) (points : IndexMap Nat) : IndexPattern :=
  match detector.ofPoints points with
  | some pattern => pattern
  | none => IndexPattern.constant (points.values.headD 0)

/-- The section that does not grow any more. -/
def close (detector : Detector) (part : OpenSection) : ElementSection where
  keys := part.keys
  target := patternOf detector part.targets
  source := patternOf detector part.sources

end OpenSection

namespace ElementSection

/-- The sections of some points after those of an open section.  A point joins
the open section if that is empty or still follows patterns with the point. -/
def splitAfter (detector : Detector) :
    OpenSection → List ElementPoint → List ElementSection
  | current, [] =>
    if current.keys.isEmpty then [] else [current.close detector]
  | current, point :: rest =>
    let longer := current.add point
    if current.keys.isEmpty || longer.followsPatterns detector then
      splitAfter detector longer rest
    else
      current.close detector ::
        splitAfter detector (OpenSection.add {} point) rest

/-- The sections of the points of an element. -/
def split (detector : Detector) (points : List ElementPoint) :
    List ElementSection :=
  splitAfter detector {} points

end ElementSection

/-- How an element with the given points is copied. -/
def ElementCopy.ofPoints (detector : Detector) (points : List ElementPoint) :
    ElementCopy :=
  let target := detector.ofPoints <| IndexMap.ofList <|
    points.map fun point => (point.iteration, point.target)
  let source := detector.ofPoints <| IndexMap.ofList <|
    points.map fun point => (point.iteration, point.source)
  { target
    source
    sections :=
      if target.isSome && source.isSome then
        []
      else
        ElementSection.split detector points }

end SparseLoop
