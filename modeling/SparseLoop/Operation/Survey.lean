import SparseLoop.Index.Map
import SparseLoop.Operation.Graph

/-!
# Dependence on the loop index

Inside a loop a node is invariant if no path of arguments leads from it to the
index declaration of the loop, and indexed otherwise.  A `Survey` collects the
answers found so far, so that a shared node is examined once, together with the
hoistable nodes: the invariant arguments of indexed nodes.

An invariant argument is not hoistable if it is a bare independent variable, or
if the node that uses it must run once per iteration, as array accesses and
atomic calls must.

A survey that fails keeps what it found before the failure.  An answer is noted
only after those for all arguments, so that every noted answer is complete.
-/

namespace SparseLoop

/-- Whether a value changes with the iteration. -/
inductive Dependence where
  | invariant
  | indexed
deriving DecidableEq, Repr

/-- The findings about a loop body so far. -/
structure Survey where
  /-- The nodes whose dependence is known. -/
  marks : IndexMap Dependence := ∅
  /-- The invariant nodes worth computing before the loop. -/
  hoistable : IndexSet := ∅

namespace Survey

/-- The dependence of a node, if it is known. -/
def dependence? (survey : Survey) (node : Nat) : Option Dependence :=
  survey.marks.get? node

/-- The survey with the dependence of a node noted. -/
def mark (survey : Survey) (node : Nat) (dependence : Dependence) : Survey :=
  { survey with marks := survey.marks.insert node dependence }

/-- The survey with more hoistable nodes. -/
def addHoistable (survey : Survey) (nodes : List Nat) : Survey :=
  { survey with hoistable := survey.hoistable.insertAll nodes }

/-- A computation that extends a survey, and may fail. -/
abbrev Action :=
  EStateM Failure Survey

/-- What a reading of a graph gives, or its failure. -/
def ofExcept {α : Type} : Except Failure α → Action α
  | .ok value => pure value
  | .error failure => throw failure

end Survey

namespace OperationKind

/-- Whether a node of a kind must run in every iteration with its arguments. -/
def runsEveryIteration : OperationKind → Bool
  | arrayElement => true
  | atomicForward => true
  | atomicReverse => true
  | _ => false

end OperationKind

namespace OperationGraph

open Survey (Action)

/-- Whether an address holds a node that computes something, rather than naming
an independent variable. -/
def isComputed (graph : OperationGraph) (id : Nat) : Bool :=
  (graph.node? id).any (·.kind != .independent)

/-- The arguments of a node that are invariant and worth hoisting. -/
def hoistableArguments (graph : OperationGraph) (survey : Survey)
    (node : OperationNode) : List Nat :=
  node.argumentNodes.filter fun argument =>
    survey.dependence? argument == some .invariant && graph.isComputed argument

/-- Visits the nodes that the arguments at some positions refer to. -/
def visitArguments (graph : OperationGraph) (visit : Nat → Action Dependence)
    (id : Nat) : List Nat → Action (List Dependence)
  | [] => pure []
  | position :: rest => do
    match ← Survey.ofExcept (graph.argumentNode id position) with
    | none => visitArguments graph visit id rest
    | some argument =>
      let dependence ← visit argument
      let others ← visitArguments graph visit id rest
      pure (dependence :: others)

/-- Notes the dependence of a node that follows from those of its arguments,
and the hoistable arguments if it mixes both. -/
def conclude (graph : OperationGraph) (id : Nat) (node : OperationNode)
    (dependences : List Dependence) : Action Dependence := do
  let conclusion :=
    if dependences.contains .indexed then .indexed else Dependence.invariant
  modify (·.mark id conclusion)
  if conclusion = .indexed ∧ dependences.contains .invariant ∧
      ¬ node.kind.runsEveryIteration then
    modify fun survey =>
      survey.addHoistable (graph.hoistableArguments survey node)
  pure conclusion

/-- Finds the dependence of a node on a loop index, following at most a given
number of arguments one after the other. -/
def surveyWithin (graph : OperationGraph) (loopIndex : Nat) :
    Nat → Nat → Action Dependence
  | 0, id => do
    match (← get).dependence? id with
    | some known => pure known
    | none => throw (.cyclicArguments id)
  | depth + 1, id => do
    match (← get).dependence? id with
    | some known => pure known
    | none =>
      let node ← Survey.ofExcept (graph.node id)
      if node.kind = .indexDeclaration ∧ id = loopIndex then
        modify (·.mark id .indexed)
        pure .indexed
      else
        let dependences ←
          visitArguments graph (surveyWithin graph loopIndex depth) id
            (List.range node.arguments.length)
        conclude graph id node dependences

/-- Finds the dependence of a node on a loop index.  Without a cycle, no path of
arguments is longer than the number of nodes. -/
def survey (graph : OperationGraph) (loopIndex id : Nat) : Action Dependence :=
  surveyWithin graph loopIndex (graph.size + 1) id

end OperationGraph

end SparseLoop
