import Mathlib.Data.Finset.Card
import Mathlib.Logic.Relation
import SparseLoop.Operation.Graph

/-!
# Paths of arguments

The arguments of the nodes of an operation graph are its edges.  A node
reaches another one if a path of arguments leads there, and a graph is acyclic
if no node is needed to compute itself.

The nodes are finitely many, so in an acyclic graph paths have bounded length.
`Acyclic.exists_rank` states this as a rank that falls along every edge and is
nowhere larger than the graph: whatever follows arguments may count down from
the size of the graph.
-/

namespace SparseLoop

namespace OperationGraph

variable {graph : OperationGraph}

/-- A node has another one among its arguments. -/
def Uses (graph : OperationGraph) (parent child : Nat) : Prop :=
  ∃ node, graph.node? parent = some node ∧ child ∈ node.argumentNodes

/-- A path of arguments leads from a node to a target. -/
def Reaches (graph : OperationGraph) (source target : Nat) : Prop :=
  Relation.ReflTransGen graph.Uses source target

/-- No node is needed to compute itself. -/
def Acyclic (graph : OperationGraph) : Prop :=
  ∀ id, ¬ Relation.TransGen graph.Uses id id

theorem lt_size_of_node? {id : Nat} {node : OperationNode}
    (found : graph.node? id = some node) :
    id < graph.size := by
  obtain ⟨bound, _⟩ := Array.getElem?_eq_some_iff.mp found
  exact bound

theorem Uses.lt_size {parent child : Nat}
    (edge : graph.Uses parent child) :
    parent < graph.size := by
  obtain ⟨node, found, _⟩ := edge
  exact lt_size_of_node? found

/-- A graph is acyclic if some rank falls from every node to its arguments. -/
theorem acyclic_of_rank (rank : Nat → Nat)
    (falls : ∀ parent, parent < graph.size →
      ∀ node ∈ graph.node? parent, ∀ child ∈ node.argumentNodes,
        rank child < rank parent) :
    graph.Acyclic := by
  have lower : ∀ parent child, graph.Uses parent child →
      rank child < rank parent := by
    rintro parent child ⟨node, found, uses⟩
    exact falls parent (lt_size_of_node? found) node found child uses
  have lowest : ∀ parent child, Relation.TransGen graph.Uses parent child →
      rank child < rank parent := by
    intro parent child path
    induction path with
    | single edge => exact lower _ _ edge
    | tail _ edge ih => exact Nat.lt_trans (lower _ _ edge) ih
  intro id cycle
  exact Nat.lt_irrefl _ (lowest id id cycle)

/-- A graph is acyclic if all arguments of a node are earlier nodes. -/
theorem acyclic_of_earlier
    (earlier : ∀ parent, parent < graph.size →
      ∀ node ∈ graph.node? parent, ∀ child ∈ node.argumentNodes,
        child < parent) :
    graph.Acyclic :=
  acyclic_of_rank id earlier

/-- A node other than the target reaches it through one of its arguments. -/
theorem reaches_iff_of_ne {source target : Nat}
    (different : source ≠ target) :
    graph.Reaches source target ↔
      ∃ child, graph.Uses source child ∧ graph.Reaches child target := by
  constructor
  · intro path
    rcases Relation.ReflTransGen.cases_head path with equal | step
    · exact absurd equal different
    · exact step
  · rintro ⟨child, edge, path⟩
    exact Relation.ReflTransGen.head edge path

open Classical in
/-- The nodes on the paths from a node, the node itself left out. -/
noncomputable def descendants (graph : OperationGraph) (id : Nat) :
    Finset Nat :=
  (Finset.range graph.size).filter (Relation.TransGen graph.Uses id)

theorem mem_descendants {id other : Nat} :
    other ∈ graph.descendants id ↔
      other < graph.size ∧ Relation.TransGen graph.Uses id other := by
  simp [descendants]

/-- An argument that is in the graph has fewer descendants than its parent. -/
theorem Acyclic.card_descendants_lt
    (acyclic : graph.Acyclic) {parent child : Nat}
    (edge : graph.Uses parent child) (present : child < graph.size) :
    (graph.descendants child).card < (graph.descendants parent).card := by
  apply Finset.card_lt_card
  rw [Finset.ssubset_iff_of_subset]
  · refine ⟨child, ?_, ?_⟩
    · exact mem_descendants.mpr ⟨present, .single edge⟩
    · intro member
      exact acyclic child (mem_descendants.mp member).2
  · intro other member
    obtain ⟨bound, path⟩ := mem_descendants.mp member
    exact mem_descendants.mpr ⟨bound, .head edge path⟩

theorem Acyclic.card_descendants_lt_size
    (acyclic : graph.Acyclic) {id : Nat} (present : id < graph.size) :
    (graph.descendants id).card < graph.size := by
  have proper : graph.descendants id ⊂ Finset.range graph.size := by
    have inside : graph.descendants id ⊆ Finset.range graph.size := by
      intro other member
      exact Finset.mem_range.mpr (mem_descendants.mp member).1
    rw [Finset.ssubset_iff_of_subset inside]
    refine ⟨id, Finset.mem_range.mpr present, ?_⟩
    intro member
    exact acyclic id (mem_descendants.mp member).2
  simpa using Finset.card_lt_card proper

/--
In an acyclic graph the nodes have ranks that fall along every edge, none of
them above the number of nodes.
-/
theorem Acyclic.exists_rank (acyclic : graph.Acyclic) :
    ∃ rank : Nat → Nat,
      (∀ id, rank id ≤ graph.size) ∧
        ∀ parent child, graph.Uses parent child →
          rank child < rank parent := by
  -- an address outside the graph is a leaf, whatever it stands under
  refine ⟨fun id =>
    if id < graph.size then (graph.descendants id).card + 1 else 0,
    ?_, ?_⟩
  · intro id
    dsimp only
    split
    · exact acyclic.card_descendants_lt_size ‹_›
    · exact Nat.zero_le _
  · intro parent child edge
    simp only [edge.lt_size, if_true]
    split
    · exact Nat.succ_lt_succ (acyclic.card_descendants_lt edge ‹_›)
    · exact Nat.succ_pos _

end OperationGraph

end SparseLoop
