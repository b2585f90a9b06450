import SparseLoop.Proofs.Operation.Extension
import SparseLoop.Proofs.Operation.Hoisting
import SparseLoop.Proofs.Outcome

/-!
# Well-formed graphs

A graph is well formed if every argument is a node of the graph, if no node is
needed to compute itself, and if the numbers of loop nodes refer to patterns and
to loop starts that exist.

Adding a node over existing ones keeps a graph well formed, and registering a
pattern does too.  Hoisting is the one step that lets an old node refer to newer
ones.  It closes no cycle, because a hoisted node does not reach the index
declaration of the loop, which is an argument of the loop start.

Some nodes may be exempt from what is asked of their numbers: the builder of
plain operations takes any kind and gives its node no numbers.
-/

namespace SparseLoop

/-- Whether nodes of a kind refer with their numbers to a pattern or to the
start of a loop. -/
def OperationKind.refersToLoop : OperationKind → Bool
  | loopEnd => true
  | loopIndexedIndependent => true
  | loopIndexedDependent => true
  | _ => false

namespace OperationGraph

/-- The numbers of a node refer to what they should, if its kind gives them a
meaning. -/
structure Fits (graph : OperationGraph) (node : OperationNode) : Prop where
  independentPattern : node.kind = .loopIndexedIndependent →
    ∃ location entry, node.info[1]? = some location ∧
      graph.independentPatterns[location]? = some entry
  dependentPattern : node.kind = .loopIndexedDependent →
    ∃ location pattern, node.info[0]? = some location ∧
      graph.dependentPatterns[location]? = some pattern
  loopStart : node.kind = .loopEnd →
    ∃ start opening, node.info[0]? = some start ∧
      graph.node? start = some opening ∧ opening.kind = .loopStart

/-- Arguments are present and close no cycle, and the numbers of all nodes that
are not exempt refer to what they should. -/
structure WellFormedExcept (graph : OperationGraph)
    (exempt : OperationNode → Prop) : Prop where
  present : ∀ parent child, graph.Uses parent child → child < graph.size
  acyclic : graph.Acyclic
  fits : ∀ id node, graph.node? id = some node → ¬ exempt node →
    graph.Fits node

/-- A well-formed graph has no exempt nodes. -/
def WellFormed (graph : OperationGraph) : Prop :=
  graph.WellFormedExcept fun _ => False

variable {graph later base : OperationGraph} {node : OperationNode}
  {exempt : OperationNode → Prop}

theorem fits_of_ordinary (ordinary : node.kind.refersToLoop = false) :
    graph.Fits node := by
  constructor <;>
  · intro kind
    rw [kind] at ordinary
    cases ordinary

theorem Fits.extend (fits : graph.Fits node)
    (extension : graph.ExtendsTo later) : later.Fits node where
  independentPattern kind := by
    rcases fits.independentPattern kind with
      ⟨location, entry, listed, registered⟩
    exact ⟨location, entry, listed,
      extension.independentPatterns location entry registered⟩
  dependentPattern kind := by
    rcases fits.dependentPattern kind with
      ⟨location, pattern, listed, registered⟩
    exact ⟨location, pattern, listed,
      extension.dependentPatterns location pattern registered⟩
  loopStart kind := by
    rcases fits.loopStart kind with ⟨start, opening, listed, found, opens⟩
    exact ⟨start, opening, listed, extension.nodes start opening found, opens⟩

namespace WellFormedExcept

theorem empty : ({} : OperationGraph).WellFormedExcept exempt where
  present := by
    rintro parent child ⟨node, found, _⟩
    cases found
  acyclic := acyclic_of_earlier fun parent below =>
    absurd below (Nat.not_lt_zero parent)
  fits := by
    intro id node found
    cases found

/-- More nodes may be exempt. -/
theorem mono {more : OperationNode → Prop}
    (wellFormed : graph.WellFormedExcept exempt)
    (fewer : ∀ node, exempt node → more node) :
    graph.WellFormedExcept more where
  present := wellFormed.present
  acyclic := wellFormed.acyclic
  fits id node found notExempt :=
    wellFormed.fits id node found fun exempted =>
      notExempt (fewer node exempted)

/-- Only nodes of the graph are reached from nodes of the graph. -/
theorem lt_size_of_reaches (wellFormed : graph.WellFormedExcept exempt)
    {source target : Nat} (inside : source < graph.size)
    (path : graph.Reaches source target) : target < graph.size := by
  induction path with
  | refl => exact inside
  | tail _ edge _ => exact wellFormed.present _ _ edge

/-- A node over existing nodes may be added. -/
theorem addNode (wellFormed : graph.WellFormedExcept exempt)
    (arguments : ∀ child ∈ node.argumentNodes, child < graph.size)
    (fits : ¬ exempt node → graph.Fits node) :
    (graph.addNode node).WellFormedExcept exempt := by
  have extension := extendsTo_addNode graph node
  have edges : ∀ parent child, (graph.addNode node).Uses parent child →
      graph.Uses parent child ∨
        parent = graph.size ∧ child ∈ node.argumentNodes := by
    rintro parent child ⟨other, found, uses⟩
    rw [node?_addNode] at found
    split at found
    · next equal =>
      cases found
      exact .inr ⟨equal, uses⟩
    · exact .inl ⟨other, found, uses⟩
  refine ⟨?_, ?_, ?_⟩
  · intro parent child edge
    apply extension.lt_size
    rcases edges parent child edge with earlier | ⟨_, uses⟩
    · exact wellFormed.present parent child earlier
    · exact arguments child uses
  · -- nothing reaches an address that was not in the graph
    refine acyclic_of_edges_from wellFormed.acyclic edges ?_
    intro child uses path
    exact Nat.lt_irrefl _
      (wellFormed.lt_size_of_reaches (arguments child uses) path)
  · intro id other found notExempt
    rw [node?_addNode] at found
    split at found
    · cases found
      exact (fits notExempt).extend extension
    · exact (wellFormed.fits id other found notExempt).extend extension

/-- Patterns may be registered. -/
theorem of_nodes_eq (wellFormed : graph.WellFormedExcept exempt)
    (same : later.nodes = graph.nodes)
    (extension : graph.ExtendsTo later) : later.WellFormedExcept exempt := by
  have found : later.node? = graph.node? := by
    funext id
    rw [node?, node?, same]
  have edges : later.Uses = graph.Uses := by
    funext parent child
    rw [Uses, Uses, found]
  refine ⟨?_, ?_, ?_⟩
  · intro parent child edge
    rw [edges] at edge
    exact extension.lt_size (wellFormed.present parent child edge)
  · intro id cycle
    rw [edges] at cycle
    exact wellFormed.acyclic id cycle
  · intro id node stored notExempt
    rw [found] at stored
    exact (wellFormed.fits id node stored notExempt).extend extension

end WellFormedExcept

/-! ## Arguments of a loop start -/

theorem node?_passToLoop {start id : Nat} {hoisted : List Nat} :
    (graph.passToLoop start hoisted).node? id =
      if start = id then
        (graph.node? id).map fun node =>
          { node with arguments := node.arguments ++ hoisted.map .node }
      else graph.node? id :=
  Array.getElem?_modify

@[simp]
theorem size_passToLoop {start : Nat} {hoisted : List Nat} :
    (graph.passToLoop start hoisted).size = graph.size :=
  Array.size_modify

/-- A change of a loop start that is not in an earlier graph keeps that
graph. -/
theorem ExtendsTo.passToLoop (extension : base.ExtendsTo graph) {start : Nat}
    (fresh : base.size ≤ start) (hoisted : List Nat) :
    base.ExtendsTo (graph.passToLoop start hoisted) where
  nodes id node found := by
    have different : start ≠ id := by
      rintro rfl
      exact absurd (lt_size_of_node? found) (Nat.not_lt.mpr fresh)
    rw [node?_passToLoop, if_neg different]
    exact extension.nodes id node found
  independentPatterns := extension.independentPatterns
  dependentPatterns := extension.dependentPatterns

/-- Every node is kept with its kind. -/
theorem exists_node?_passToLoop {start id : Nat} {hoisted : List Nat}
    (found : graph.node? id = some node) :
    ∃ moved, (graph.passToLoop start hoisted).node? id = some moved ∧
      moved.kind = node.kind := by
  rw [node?_passToLoop, found]
  split
  · exact ⟨_, rfl, rfl⟩
  · exact ⟨node, rfl, rfl⟩

/-- Numbers refer to the same things after a loop start got arguments. -/
theorem Fits.passToLoop (fits : graph.Fits node) (start : Nat)
    (hoisted : List Nat) : (graph.passToLoop start hoisted).Fits node where
  independentPattern := fits.independentPattern
  dependentPattern := fits.dependentPattern
  loopStart kind := by
    rcases fits.loopStart kind with ⟨other, opening, listed, found, opens⟩
    rcases exists_node?_passToLoop found with ⟨moved, kept, sameKind⟩
    exact ⟨other, moved, listed, kept, sameKind.trans opens⟩

theorem uses_passToLoop {start parent child : Nat} {hoisted : List Nat}
    (edge : (graph.passToLoop start hoisted).Uses parent child) :
    graph.Uses parent child ∨ parent = start ∧ child ∈ hoisted := by
  rcases edge with ⟨node, found, uses⟩
  rw [node?_passToLoop] at found
  split at found
  · next equal =>
    rcases Option.map_eq_some_iff.mp found with ⟨earlier, stored, rfl⟩
    rw [mem_argumentNodes, List.mem_append] at uses
    rcases uses with before | added
    · exact .inl ⟨earlier, stored, mem_argumentNodes.mpr before⟩
    · exact .inr ⟨equal.symm, by simpa using added⟩
  · exact .inl ⟨node, found, uses⟩

/-- A loop start may get arguments that do not reach it. -/
theorem WellFormedExcept.passToLoop
    (wellFormed : graph.WellFormedExcept exempt) {start : Nat}
    {opening : OperationNode} (found : graph.node? start = some opening)
    (opens : opening.kind = .loopStart) {hoisted : List Nat}
    (present : ∀ id ∈ hoisted, id < graph.size)
    (away : ∀ id ∈ hoisted, ¬ graph.Reaches id start) :
    (graph.passToLoop start hoisted).WellFormedExcept exempt where
  present parent child edge := by
    rw [size_passToLoop]
    rcases uses_passToLoop edge with earlier | ⟨_, added⟩
    · exact wellFormed.present parent child earlier
    · exact present child added
  acyclic :=
    acyclic_of_edges_from wellFormed.acyclic
      (fun _ _ edge => uses_passToLoop edge) away
  fits id node stored notExempt := by
    rw [node?_passToLoop] at stored
    split at stored
    · next equal =>
      subst equal
      rw [found, Option.map_some] at stored
      cases stored
      exact fits_of_ordinary (by simp [opens, OperationKind.refersToLoop])
    · exact (wellFormed.fits id node stored notExempt).passToLoop start hoisted

/-- A loop that has an index begins at a loop start that uses it. -/
theorem loopIndex_uses {start declaration : Nat}
    (driven : graph.loopIndex start = .ok declaration) :
    ∃ opening, graph.node? start = some opening ∧
      opening.kind = .loopStart ∧ declaration ∈ opening.argumentNodes := by
  rcases loopIndex_eq_ok_iff.mp driven with ⟨opening, _, found, opens, first, _⟩
  exact ⟨opening, found, opens,
    mem_argumentNodes.mpr (List.mem_of_head? first)⟩

/-- Hoisting gives the hoisted nodes to the loop start. -/
theorem hoist_eq_ok {start finish : Nat} {hoisted : List Nat}
    {moved : OperationGraph}
    (succeeds : (graph.hoist ∅ start finish).1 = .ok (hoisted, moved)) :
    moved = graph.passToLoop start hoisted := by
  rw [OperationGraph.hoist] at succeeds
  split at succeeds
  · cases succeeds
    rfl
  · cases succeeds

/-- Hoisting out of a loop keeps a graph well formed. -/
theorem WellFormedExcept.hoist (wellFormed : graph.WellFormedExcept exempt)
    {start finish : Nat} {hoisted : List Nat} {moved : OperationGraph}
    (succeeds : (graph.hoist ∅ start finish).1 = .ok (hoisted, moved)) :
    moved.WellFormedExcept exempt := by
  rcases exists_hoists_of_hoist succeeds with
    ⟨declaration, last, survey, hoists⟩
  rcases loopIndex_uses hoists.driven with ⟨opening, found, opens, uses⟩
  rw [hoist_eq_ok succeeds]
  refine wellFormed.passToLoop found opens ?_ ?_
  · intro id member
    rcases hoists.invariant_of_mem member with ⟨marked, invariant⟩
    have different : id ≠ declaration := by
      rintro rfl
      exact invariant .refl
    rcases hoists.faithful.closed id _ marked different with ⟨node, stored, _⟩
    exact lt_size_of_node? stored
  · -- whatever reaches the loop start reaches its index declaration
    intro id member path
    exact (hoists.invariant_of_mem member).2
      (.tail path ⟨opening, found, uses⟩)

end OperationGraph

end SparseLoop
