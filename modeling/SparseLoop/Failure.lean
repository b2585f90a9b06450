/-!
# Causes of failure

Every operation of the library either succeeds or stops at the first fault it
meets.  A `Failure` is the cause of such a stop, with the values needed to say
where it lies.  Each cause has a stable code, and one function writes the text
that a user sees.

The codes are grouped by the part of the library that finds the fault: `E01`
for operation graphs, `E02` for iteration ranges and branches, `E03` for usage
descriptions, `E04` for requests and options.
-/

namespace SparseLoop

/-- A list in which a loop looks up one of its slots. -/
inductive SlotTable where
  /-- The patterns of the indexed independents. -/
  | independentPatterns
  /-- The nodes that stand for the indexed independents. -/
  | indexedIndependents
  /-- The nodes that stand for the independents without an index. -/
  | nonIndexedIndependents
  /-- The nodes that stand for the temporaries. -/
  | temporaries
deriving DecidableEq, Repr

/-- What one slot of a table is called in messages. -/
def SlotTable.label : SlotTable → String
  | independentPatterns => "independent pattern"
  | indexedIndependents => "indexed independent"
  | nonIndexedIndependents => "non-indexed independent"
  | temporaries => "temporary"

/-- The cause of a stop. -/
inductive Failure where
  /-- A node is not in the graph. -/
  | unknownNode (node : Nat)
  /-- An argument is absent, or refers to a node that is not in the graph. -/
  | danglingArgument (node argument : Nat)
  /-- The arguments of a node lead back to the node. -/
  | cyclicArguments (node : Nat)
  /-- A loop start does not begin with an index declaration. -/
  | missingLoopIndex (start : Nat)
  /-- A node that should open a loop is of another kind. -/
  | notALoopStart (node : Nat)
  /-- A slot lies beyond the end of its table. -/
  | slotOutOfRange (table : SlotTable) (slot provided : Nat)
  /-- A guard is asked for although no iteration is active. -/
  | emptyActiveIterations
  /-- A skeleton has no branch that starts at an iteration. -/
  | branchShapeMismatch (first : Nat)
  /-- The positions of a key's elements are not recorded. -/
  | missingLocation (key : Nat)
  /-- An element should have one position and has another number of them. -/
  | ambiguousLocation (key element count : Nat)
  /-- A key is recorded neither as ordered nor as unordered. -/
  | missingOrderFlag (key : Nat)
  /-- An element of an ordered key is not stored where the order puts it. -/
  | unorderedArray (key element : Nat)
  /-- A group of a loop has no keys. -/
  | emptyGroup (loop group : Nat)
  /-- A usage refers to a loop without a model. -/
  | unknownLoop (loop : Nat)
  /-- An index variable has the name of the element counter. -/
  | reservedName (name : String)
  /-- A request text does not describe a request. -/
  | invalidRequest
deriving DecidableEq, Repr

namespace Failure

/-- The stable code of a cause. -/
def code : Failure → String
  | unknownNode _ => "E0101"
  | danglingArgument _ _ => "E0102"
  | missingLoopIndex _ => "E0103"
  | notALoopStart _ => "E0104"
  | slotOutOfRange _ _ _ => "E0105"
  | cyclicArguments _ => "E0106"
  | emptyActiveIterations => "E0201"
  | branchShapeMismatch _ => "E0202"
  | missingLocation _ => "E0301"
  | ambiguousLocation _ _ _ => "E0302"
  | missingOrderFlag _ => "E0303"
  | unorderedArray _ _ => "E0304"
  | emptyGroup _ _ => "E0305"
  | unknownLoop _ => "E0306"
  | reservedName _ => "E0401"
  | invalidRequest => "E0402"

/-- The name of a node in messages. -/
def nodeName (node : Nat) : String :=
  s!"n{node}"

/-- The text that explains a cause to a user. -/
def message : Failure → String
  | unknownNode node =>
    s!"unknown operation node {nodeName node}"
  | danglingArgument node argument =>
    s!"argument {argument} of node {nodeName node} refers to a missing node"
  | cyclicArguments node =>
    s!"the arguments of node {nodeName node} form a cycle"
  | missingLoopIndex start =>
    s!"loop start {nodeName start} has no index declaration as its first argument"
  | notALoopStart node =>
    s!"node {nodeName node} is not a loop start"
  | slotOutOfRange table slot provided =>
    s!"{table.label} slot {slot} out of range ({provided} values provided)"
  | emptyActiveIterations =>
    "index condition requested for an empty iteration set"
  | branchShapeMismatch first =>
    s!"if/else skeleton has no branch starting at iteration {first}"
  | missingLocation key =>
    s!"no element location recorded for key {key}"
  | ambiguousLocation key element count =>
    s!"element {element} of key {key} has {count} locations, expected exactly one"
  | missingOrderFlag key =>
    s!"no order flag recorded for key {key}"
  | unorderedArray key element =>
    s!"key {key} is flagged ordered but element {element} is not stored at start + {element}"
  | emptyGroup loop group =>
    s!"group {group} of loop {loop} provides no keys"
  | unknownLoop loop =>
    s!"usage refers to loop {loop}, which has no loop model"
  | reservedName name =>
    s!"name `{name}` collides with the generator's element counter `e`"
  | invalidRequest =>
    "invalid generation request"

end Failure

end SparseLoop
