import SparseLoop.Pattern.Basic

/-!
# Loop models

A loop model describes one repeated computation.  Its tape has three kinds of
independents: those read at the iteration, those that stay fixed, and the
temporaries of the surrounding computation.  The model also says where each
result lands as a function of the iteration.
-/

namespace SparseLoop

/-- A place on the tape of a loop, and in the computation around it. -/
structure LoopPosition where
  tape : Nat
  outer : Nat
deriving DecidableEq, Repr

/-- The description of a loop. -/
structure LoopModel where
  id : Nat
  iterationCount : Nat
  /-- For each independent read at the iteration: its place at each iteration. -/
  indexedIndependents : List (List LoopPosition)
  nonIndexedIndependents : List LoopPosition
  temporaries : List LoopPosition
  /-- For each independent read at the iteration: its pattern. -/
  independentPatterns : List IndexPattern
  /-- For each result stored at the iteration: its pattern. -/
  dependentPatterns : List IndexPattern
deriving DecidableEq, Repr

/-- The number of independents on the tape. -/
def LoopModel.tapeIndependentCount (model : LoopModel) : Nat :=
  model.indexedIndependents.length + model.nonIndexedIndependents.length +
    model.temporaries.length

end SparseLoop
