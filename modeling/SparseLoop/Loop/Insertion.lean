import SparseLoop.Loop.Scaffold
import SparseLoop.Operation.Hoisting

/-!
# Insertion of loops

A loop is inserted into a graph around a body that the caller builds.  The body
receives the independents of the tape and the index operation, and gives its
results.  The result at a position is stored through the dependent pattern at
that position, if the model has one.  After that, what does not change with the
iteration is hoisted out of the loop.
-/

namespace SparseLoop

open OperationGraph (Build)

/-- The nodes of an inserted loop. -/
structure InsertedLoop where
  indexDeclaration : Nat
  indexOperation : Nat
  start : Nat
  finish : Nat
  /-- The independents that the body received. -/
  independents : List Nat
  /-- The nodes computed before the loop. -/
  hoisted : List Nat
deriving Repr

/-- The results of a body with the patterns at their positions. -/
def LoopModel.attachPatterns (model : LoopModel) (results : List Nat) :
    List LoopResult :=
  results.zipIdx.map fun (node, position) =>
    { node, pattern := model.dependentPatterns[position]? }

/-- Inserts a loop around a body. -/
def LoopModel.insert (model : LoopModel) (indexName : String)
    (nonIndexed temporaries : List Nat)
    (body : List Nat → Nat → Build (List Nat)) : Build InsertedLoop := do
  let indexDeclaration ← Build.declareIndex indexName
  let indexOperation ← Build.useIndex indexDeclaration
  let start ← Build.startLoop indexDeclaration model.iterationCount
  let indexed ← model.addIndexedIndependents indexOperation
  let independents ← Build.read fun _ =>
    model.independentVector indexed nonIndexed temporaries
  let results ← body independents indexOperation
  let finish ← Build.endLoop start (model.attachPatterns results)
    (IndexSet.ofList [indexOperation]) .assign
  let hoisted ← Build.hoist start finish
  pure
    { indexDeclaration, indexOperation, start, finish, independents, hoisted }

end SparseLoop
