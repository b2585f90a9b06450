import SparseLoop.Operation.Survey

/-!
# Hoisting

A node that feeds an indexed node and does not change with the iteration is
computed once, before the loop.  Hoisting surveys the results of a loop and
appends the hoistable nodes, in ascending order, to the arguments of the node
that starts the loop.

A failure leaves the graph as it was.  The marks of the survey are the caller's
and keep what was found, also by a survey that failed.
-/

namespace SparseLoop

namespace OperationGraph

/-- Surveys the results of a loop, which must all be nodes. -/
def surveyResults (graph : OperationGraph) (loopIndex finish : Nat) :
    List Nat → Survey.Action Unit
  | [] => pure ()
  | position :: rest => do
    match ← Survey.ofExcept (graph.argumentNode finish position) with
    | none => throw (.danglingArgument finish position)
    | some result =>
      let _ ← graph.survey loopIndex result
      surveyResults graph loopIndex finish rest

/-- Surveys a loop between its start and its end. -/
def surveyLoop (graph : OperationGraph) (start finish : Nat) :
    Survey.Action Unit := do
  let loopIndex ← Survey.ofExcept (graph.loopIndex start)
  let last ← Survey.ofExcept (graph.node finish)
  graph.surveyResults loopIndex finish (List.range last.arguments.length)

/-- The graph with nodes appended to the arguments of a loop start. -/
def passToLoop (graph : OperationGraph) (start : Nat) (hoisted : List Nat) :
    OperationGraph :=
  graph.modifyNode start fun node =>
    { node with arguments := node.arguments ++ hoisted.map .node }

/-- Hoists out of a loop, with the marks of earlier surveys.  The first part is
the list of hoisted nodes with the new graph, the second the new marks. -/
def hoist (graph : OperationGraph) (marks : IndexMap Dependence)
    (start finish : Nat) :
    Except Failure (List Nat × OperationGraph) × IndexMap Dependence :=
  match (graph.surveyLoop start finish).run { marks } with
  | .ok _ survey =>
    let hoisted := survey.hoistable.toList
    (.ok (hoisted, graph.passToLoop start hoisted), survey.marks)
  | .error failure survey => (.error failure, survey.marks)

/-- Hoists out of a loop, with no node surveyed before. -/
def Build.hoist (start finish : Nat) : Build (List Nat) := do
  let (hoisted, graph) ← read fun graph => (graph.hoist ∅ start finish).1
  set graph
  pure hoisted

end OperationGraph

end SparseLoop
