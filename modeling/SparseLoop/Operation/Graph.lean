import SparseLoop.Failure
import SparseLoop.Pattern.Basic

/-!
# Operation graphs

A recorded computation is a graph of operation nodes.  A node is addressed by
its position in creation order, and its arguments are constants or other nodes.
Nodes are added at the end and never removed, so an address stays valid.

The graph also keeps the patterns to which loop nodes refer: those of the
independents that change with the iteration, each with the slot it fills, and
those of the loop results.  They too are only ever added.

Building is a computation in `OperationGraph.Build`: it may fail, and a failure
keeps the nodes that were added before it.
-/

namespace SparseLoop

/-- What an operation node does. -/
inductive OperationKind where
  /-- A reference to an independent variable. -/
  | independent
  | aliased
  | add
  | subtract
  | multiply
  | divide
  | negate
  | power
  | exponential
  | logarithm
  | sine
  | cosine
  | squareRoot
  | arrayCreation
  /-- A read or write of one element of an array. -/
  | arrayElement
  | atomicForward
  | atomicReverse
  /-- The declaration of a named index variable. -/
  | indexDeclaration
  /-- A use of an index declaration. -/
  | index
  /-- The start of a loop: its number of iterations, its index declaration, and
  the nodes computed before it. -/
  | loopStart
  /-- The end of a loop: the node that starts it, and its results. -/
  | loopEnd
  /-- An independent or dependent that is read at the iteration. -/
  | loopIndexedIndependent
  /-- A result that is stored at the iteration. -/
  | loopIndexedDependent
  /-- A condition on an index: the bounds of its ranges. -/
  | indexCondition
  | startIf
  | elseIf
  | otherwise
  | endIf
deriving DecidableEq, Repr

/-- An argument of an operation. -/
inductive Argument where
  /-- A constant, as the bits of its double-precision value. -/
  | constant (bits : UInt64)
  /-- The value of another node. -/
  | node (id : Nat)
deriving DecidableEq, Repr

/-- The node to which an argument refers, if it refers to one. -/
def Argument.node? : Argument → Option Nat
  | constant _ => none
  | node id => some id

/-- A node of an operation graph. -/
structure OperationNode where
  kind : OperationKind
  /-- Numbers whose meaning depends on the kind. -/
  info : List Nat
  arguments : List Argument
  /-- The variable name, in an index declaration. -/
  name : Option String := none
deriving DecidableEq, Repr

/-- The nodes that the arguments of a node refer to, in order. -/
def OperationNode.argumentNodes (node : OperationNode) : List Nat :=
  node.arguments.filterMap Argument.node?

/-- An arena of operation nodes with the patterns that loops refer to. -/
structure OperationGraph where
  nodes : Array OperationNode := #[]
  /-- For each independent read at the iteration: its slot and its pattern. -/
  independentPatterns : Array (Nat × IndexPattern) := #[]
  /-- For each loop result stored at the iteration: its pattern. -/
  dependentPatterns : Array IndexPattern := #[]

namespace OperationGraph

/-- The number of nodes. -/
def size (graph : OperationGraph) : Nat :=
  graph.nodes.size

/-- The node at an address, if there is one. -/
def node? (graph : OperationGraph) (id : Nat) : Option OperationNode :=
  graph.nodes[id]?

/-- The node at an address, which must be in the graph. -/
def node (graph : OperationGraph) (id : Nat) : Except Failure OperationNode :=
  match graph.node? id with
  | some found => .ok found
  | none => .error (.unknownNode id)

/-- The node to which an argument refers, or nothing for a constant.  The
argument must exist, and so must the node. -/
def argumentNode (graph : OperationGraph) (id position : Nat) :
    Except Failure (Option Nat) := do
  let found ← graph.node id
  match found.arguments[position]? with
  | some (.constant _) => .ok none
  | some (.node target) =>
    if target < graph.size then
      .ok (some target)
    else
      .error (.danglingArgument id position)
  | none => .error (.danglingArgument id position)

/-- The index declaration that drives a loop. -/
def loopIndex (graph : OperationGraph) (start : Nat) : Except Failure Nat := do
  let found ← graph.node start
  if found.kind ≠ .loopStart then
    throw (.notALoopStart start)
  match graph.argumentNode start 0 with
  | .ok (some declaration) =>
    let target ← graph.node declaration
    if target.kind = .indexDeclaration then
      pure declaration
    else
      throw (.missingLoopIndex start)
  | _ => throw (.missingLoopIndex start)

/-- The graph with the node at an address changed. -/
def modifyNode (graph : OperationGraph) (id : Nat)
    (change : OperationNode → OperationNode) : OperationGraph :=
  { graph with nodes := graph.nodes.modify id change }

/-- A computation that reads and extends a graph, and may fail. -/
abbrev Build :=
  EStateM Failure OperationGraph

namespace Build

/-- What a reading of the graph gives, or its failure. -/
def read {α : Type} (query : OperationGraph → Except Failure α) : Build α := do
  match query (← get) with
  | .ok value => pure value
  | .error failure => throw failure

/-- Adds a node and gives its address.  Addresses are numbers without a bound
here; a program that keeps them in words of thirty-two bits builds graphs of
fewer than two to the thirty-second nodes. -/
def append (node : OperationNode) : Build Nat := do
  let graph ← get
  set { graph with nodes := graph.nodes.push node }
  pure graph.size

/-- Adds a node of a kind, with its numbers and its arguments. -/
def add (kind : OperationKind) (info : List Nat) (arguments : List Argument) :
    Build Nat :=
  append { kind, info, arguments }

/-- Adds a reference to the independent variable at an index. -/
def independent (index : Nat) : Build Nat :=
  add .independent [index] []

/-- Adds an operation over nodes. -/
def operation (kind : OperationKind) (operands : List Nat) : Build Nat :=
  add kind [] (operands.map .node)

/-- Adds the declaration of a named index variable. -/
def declareIndex (name : String) : Build Nat :=
  append
    { kind := .indexDeclaration, info := [], arguments := [], name := some name }

/-- Adds a use of an index declaration. -/
def useIndex (declaration : Nat) : Build Nat :=
  add .index [] [.node declaration]

/-- Registers the pattern of an independent slot and gives its location. -/
def addIndependentPattern (pattern : IndexPattern) (slot : Nat) :
    Build Nat := do
  let graph ← get
  set { graph with
    independentPatterns := graph.independentPatterns.push (slot, pattern) }
  pure graph.independentPatterns.size

/-- Registers the pattern of a loop result and gives its location. -/
def addDependentPattern (pattern : IndexPattern) : Build Nat := do
  let graph ← get
  set { graph with dependentPatterns := graph.dependentPatterns.push pattern }
  pure graph.dependentPatterns.size

end Build

end OperationGraph

end SparseLoop
