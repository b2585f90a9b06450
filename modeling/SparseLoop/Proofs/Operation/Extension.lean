import SparseLoop.Proofs.Operation.Reachability

/-!
# Graphs that grow

A graph extends to a later one if each of its nodes and patterns stays what it
is, at the address that it has.  Paths of arguments are then kept as well.

Edges may be added to an acyclic graph if they all start at one node and none
leads to a node that reaches this one.  This covers a new node, which nothing
reaches, and a loop start that gets arguments which do not depend on the loop.
-/

namespace SparseLoop

namespace OperationGraph

/-- Each node and each pattern of a graph is kept by a later graph. -/
structure ExtendsTo (graph later : OperationGraph) : Prop where
  nodes : ∀ id node, graph.node? id = some node →
    later.node? id = some node
  independentPatterns : ∀ (location : Nat) entry,
    graph.independentPatterns[location]? = some entry →
      later.independentPatterns[location]? = some entry
  dependentPatterns : ∀ (location : Nat) pattern,
    graph.dependentPatterns[location]? = some pattern →
      later.dependentPatterns[location]? = some pattern

variable {graph middle later : OperationGraph}

theorem node?_eq_none {id : Nat} : graph.node? id = none ↔ graph.size ≤ id :=
  Array.getElem?_eq_none_iff

theorem exists_node? {id : Nat} (present : id < graph.size) :
    ∃ node, graph.node? id = some node :=
  ⟨graph.nodes[id], Array.getElem?_eq_getElem present⟩

namespace ExtendsTo

theorem refl (graph : OperationGraph) : graph.ExtendsTo graph where
  nodes _ _ found := found
  independentPatterns _ _ found := found
  dependentPatterns _ _ found := found

theorem trans (first : graph.ExtendsTo middle)
    (second : middle.ExtendsTo later) : graph.ExtendsTo later where
  nodes id node found := second.nodes id node (first.nodes id node found)
  independentPatterns location entry found :=
    second.independentPatterns location entry
      (first.independentPatterns location entry found)
  dependentPatterns location pattern found :=
    second.dependentPatterns location pattern
      (first.dependentPatterns location pattern found)

theorem lt_size (extension : graph.ExtendsTo later) {id : Nat}
    (present : id < graph.size) : id < later.size := by
  rcases exists_node? present with ⟨node, found⟩
  exact lt_size_of_node? (extension.nodes id node found)

theorem size_le (extension : graph.ExtendsTo later) :
    graph.size ≤ later.size :=
  Nat.le_of_not_lt fun smaller =>
    Nat.lt_irrefl _ (extension.lt_size smaller)

theorem uses (extension : graph.ExtendsTo later) {parent child : Nat}
    (edge : graph.Uses parent child) : later.Uses parent child := by
  rcases edge with ⟨node, found, member⟩
  exact ⟨node, extension.nodes parent node found, member⟩

theorem reaches (extension : graph.ExtendsTo later) {source target : Nat}
    (path : graph.Reaches source target) : later.Reaches source target :=
  Relation.ReflTransGen.mono (fun _ _ => extension.uses) _ _ path

/-- The arguments of a node that was there before are those it had. -/
theorem uses_iff (extension : graph.ExtendsTo later) {parent child : Nat}
    (present : parent < graph.size) :
    later.Uses parent child ↔ graph.Uses parent child := by
  constructor
  · rintro ⟨node, found, member⟩
    rcases exists_node? present with ⟨earlier, stored⟩
    rw [extension.nodes parent earlier stored] at found
    cases found
    exact ⟨node, stored, member⟩
  · exact extension.uses

end ExtendsTo

/-! ## One more node -/

/-- The graph with a node added at its end. -/
def addNode (graph : OperationGraph) (node : OperationNode) :
    OperationGraph :=
  { graph with nodes := graph.nodes.push node }

variable {node : OperationNode}

@[simp]
theorem node?_addNode {id : Nat} :
    (graph.addNode node).node? id =
      if id = graph.size then some node else graph.node? id :=
  Array.getElem?_push

theorem extendsTo_addNode (graph : OperationGraph) (node : OperationNode) :
    graph.ExtendsTo (graph.addNode node) where
  nodes id other found := by
    have different : id ≠ graph.size := by
      rintro rfl
      exact Nat.lt_irrefl _ (lt_size_of_node? found)
    rw [node?_addNode, if_neg different, found]
  independentPatterns _ _ found := found
  dependentPatterns _ _ found := found

/-! ## Cycles -/

/--
Edges from one node to others that do not reach it close no cycle.
-/
theorem acyclic_of_edges_from {source : Nat} {targets : Nat → Prop}
    (acyclic : graph.Acyclic)
    (edges : ∀ parent child, later.Uses parent child →
      graph.Uses parent child ∨ parent = source ∧ targets child)
    (away : ∀ child, targets child → ¬ graph.Reaches child source) :
    later.Acyclic := by
  -- a path uses no new edge, or it passes the source and then a target
  have passes : ∀ first last, Relation.TransGen later.Uses first last →
      Relation.TransGen graph.Uses first last ∨
        graph.Reaches first source ∧
          ∃ child, targets child ∧ graph.Reaches child last := by
    intro first last path
    induction path with
    | single edge =>
      rcases edges _ _ edge with kept | ⟨equal, target⟩
      · exact .inl (.single kept)
      · exact .inr ⟨equal ▸ .refl, _, target, .refl⟩
    | tail _ edge ih =>
      rcases edges _ _ edge with kept | ⟨equal, target⟩
      · rcases ih with path | ⟨toSource, child, target, path⟩
        · exact .inl (.tail path kept)
        · exact .inr ⟨toSource, child, target, .tail path kept⟩
      · subst equal
        rcases ih with path | ⟨toSource, _⟩
        · exact .inr ⟨path.to_reflTransGen, _, target, .refl⟩
        · exact .inr ⟨toSource, _, target, .refl⟩
  intro id cycle
  rcases passes id id cycle with path | ⟨toSource, child, target, path⟩
  · exact acyclic id path
  · exact away child target (path.trans toSource)

end OperationGraph

end SparseLoop
