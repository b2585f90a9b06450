import SparseLoop.Proofs.Operation.WellFormed

/-!
# Building well-formed graphs

A builder keeps a graph well formed, and the nodes and patterns of an earlier
graph in place, whether it succeeds or fails.  `Keeps` states this together with
what a success gives, and `Keeps.bind` carries it from step to step.  The earlier
graph is any one that the builder's own graph extends, so a builder may still
change the nodes that were added since.

The steps of this module are the primitive ones, which add a node or register a
pattern, and hoisting, which changes a loop start that is not in the earlier
graph.
-/

namespace SparseLoop

namespace OperationGraph

variable {graph middle later base : OperationGraph} {node : OperationNode}
  {exempt : OperationNode → Prop}

/-- A later graph is well formed and keeps what an earlier one holds. -/
structure Continues (base : OperationGraph) (exempt : OperationNode → Prop)
    (later : OperationGraph) : Prop where
  wellFormed : later.WellFormedExcept exempt
  extension : base.ExtendsTo later

/-! ## Ordinary nodes -/

/-- A node that refers to no loop is added over existing nodes. -/
def AddsOrdinaryNode (graph later : OperationGraph) : Prop :=
  ∃ node : OperationNode, node.kind.refersToLoop = false ∧
    (∀ child ∈ node.argumentNodes, child < graph.size) ∧
    later = graph.addNode node

/-- Nodes that refer to no loop are added, each over existing nodes. -/
def AddsOrdinary (graph later : OperationGraph) : Prop :=
  Relation.ReflTransGen AddsOrdinaryNode graph later

namespace AddsOrdinary

theorem refl (graph : OperationGraph) : graph.AddsOrdinary graph :=
  Relation.ReflTransGen.refl

theorem trans (first : graph.AddsOrdinary middle)
    (second : middle.AddsOrdinary later) : graph.AddsOrdinary later :=
  Relation.ReflTransGen.trans first second

theorem addNode (before : graph.AddsOrdinary middle)
    (ordinary : node.kind.refersToLoop = false)
    (arguments : ∀ child ∈ node.argumentNodes, child < middle.size) :
    graph.AddsOrdinary (middle.addNode node) :=
  Relation.ReflTransGen.tail before ⟨node, ordinary, arguments, rfl⟩

theorem extendsTo (adds : graph.AddsOrdinary later) :
    graph.ExtendsTo later := by
  induction adds with
  | refl => exact .refl graph
  | tail _ step ih =>
    rcases step with ⟨node, _, _, rfl⟩
    exact ih.trans (extendsTo_addNode _ node)

theorem wellFormedExcept (adds : graph.AddsOrdinary later)
    (wellFormed : graph.WellFormedExcept exempt) :
    later.WellFormedExcept exempt := by
  induction adds with
  | refl => exact wellFormed
  | tail _ step ih =>
    rcases step with ⟨node, ordinary, arguments, rfl⟩
    exact ih.addNode arguments fun _ => fits_of_ordinary ordinary

theorem continues (adds : graph.AddsOrdinary later)
    (state : base.Continues exempt graph) : base.Continues exempt later where
  wellFormed := adds.wellFormedExcept state.wellFormed
  extension := state.extension.trans adds.extendsTo

end AddsOrdinary

/-! ## Builders -/

namespace Build

variable {α β : Type} {start : Nat}

/-- However a builder ends, its graph continues an earlier one, and a success
gives something besides. -/
def Keeps (base : OperationGraph) (exempt : OperationNode → Prop)
    (action : Build α) (graph : OperationGraph)
    (answers : α → OperationGraph → Prop) : Prop :=
  Ends (fun value later => base.Continues exempt later ∧ answers value later)
    (fun _ later => base.Continues exempt later) (action graph)

theorem Keeps.bind {first : Build α} {next : α → Build β}
    {between : α → OperationGraph → Prop}
    {answers : β → OperationGraph → Prop}
    (opens : Keeps base exempt first graph between)
    (continues : ∀ value later, base.Continues exempt later →
      between value later → Keeps base exempt (next value) later answers) :
    Keeps base exempt (first >>= next) graph answers :=
  Ends.bind opens fun value later both => continues value later both.1 both.2

theorem Keeps.mono {action : Build α}
    {answers weaker : α → OperationGraph → Prop}
    (keeps : Keeps base exempt action graph answers)
    (follows : ∀ value later, answers value later → weaker value later) :
    Keeps base exempt action graph weaker :=
  Ends.mono keeps
    (fun value later both => ⟨both.1, follows value later both.2⟩)
    (fun _ _ state => state)

/-- A builder that keeps a graph well formed leaves a well-formed one. -/
theorem Keeps.stateAfter {action : Build α}
    {answers : α → OperationGraph → Prop}
    (keeps : Keeps base exempt action graph answers) :
    base.Continues exempt (SparseLoop.stateAfter (action graph)) :=
  Ends.stateAfter
    (Ends.mono keeps (fun _ _ both => both.1) fun _ _ state => state)

theorem throw_keeps (state : base.Continues exempt graph)
    (failure : Failure) (answers : α → OperationGraph → Prop) :
    Keeps base exempt (throw failure : Build α) graph answers :=
  state

theorem read_ends (query : OperationGraph → Except Failure α)
    (graph : OperationGraph) :
    Ends (fun value later => query graph = .ok value ∧ later = graph)
      (fun _ later => later = graph) (Build.read query graph) := by
  rw [Build.read, get_bind_apply]
  cases query graph with
  | ok value => exact ⟨rfl, rfl⟩
  | error failure => exact rfl

theorem read_eq_ok {query : OperationGraph → Except Failure α} {value : α}
    (looked : query graph = .ok value) :
    Build.read query graph = .ok value graph := by
  rw [Build.read, get_bind_apply, looked]
  rfl

theorem read_keeps (state : base.Continues exempt graph)
    (query : OperationGraph → Except Failure α) :
    Keeps base exempt (Build.read query) graph
      (fun value later => query graph = .ok value ∧ later = graph) :=
  (read_ends query graph).mono
    (fun _ _ both => ⟨both.2 ▸ state, both⟩)
    (fun _ _ same => same ▸ state)

/-- However a builder ends, it only added ordinary nodes over existing ones, and
a success gives something besides. -/
def Adds (action : Build α) (graph : OperationGraph)
    (answers : α → OperationGraph → Prop) : Prop :=
  Ends (fun value later => graph.AddsOrdinary later ∧ answers value later)
    (fun _ later => graph.AddsOrdinary later) (action graph)

theorem Adds.bind {first : Build α} {next : α → Build β}
    {between : α → OperationGraph → Prop}
    {answers : β → OperationGraph → Prop}
    (opens : Adds first graph between)
    (continues : ∀ value later, graph.AddsOrdinary later →
      between value later → Adds (next value) later answers) :
    Adds (first >>= next) graph answers := by
  apply Ends.bind opens
  rintro value later ⟨adds, met⟩
  exact (continues value later adds met).mono
    (fun _ _ both => ⟨adds.trans both.1, both.2⟩)
    (fun _ _ more => adds.trans more)

theorem Adds.mono {action : Build α}
    {answers weaker : α → OperationGraph → Prop}
    (adds : Adds action graph answers)
    (follows : ∀ value later, graph.AddsOrdinary later →
      answers value later → weaker value later) :
    Adds action graph weaker :=
  Ends.mono adds
    (fun value later both => ⟨both.1, follows value later both.1 both.2⟩)
    (fun _ _ more => more)

theorem Adds.addsOrdinary {action : Build α}
    {answers : α → OperationGraph → Prop} (adds : Adds action graph answers) :
    graph.AddsOrdinary (SparseLoop.stateAfter (action graph)) :=
  Ends.stateAfter (Ends.mono adds (fun _ _ both => both.1) fun _ _ more => more)

theorem read_adds (query : OperationGraph → Except Failure α)
    (graph : OperationGraph) :
    Adds (Build.read query) graph
      (fun value later => query graph = .ok value ∧ later = graph) :=
  (read_ends query graph).mono
    (fun _ _ both => ⟨both.2 ▸ .refl graph, both⟩)
    (fun _ _ same => same ▸ .refl graph)

theorem append_adds (ordinary : node.kind.refersToLoop = false)
    (arguments : ∀ child ∈ node.argumentNodes, child < graph.size) :
    Adds (append node) graph
      (fun id later => later.node? id = some node) := by
  refine ⟨(AddsOrdinary.refl graph).addNode ordinary arguments, ?_⟩
  show (graph.addNode node).node? graph.size = some node
  simp

/-- A builder that only adds ordinary nodes keeps a graph well formed. -/
theorem Adds.keeps {action : Build α}
    {answers : α → OperationGraph → Prop}
    (adds : Adds action graph answers)
    (state : base.Continues exempt graph) :
    Keeps base exempt action graph answers :=
  Ends.mono adds
    (fun _ _ both => ⟨both.1.continues state, both.2⟩)
    (fun _ _ more => more.continues state)

theorem append_keeps (state : base.Continues exempt graph)
    (arguments : ∀ child ∈ node.argumentNodes, child < graph.size)
    (fits : ¬ exempt node → graph.Fits node) :
    Keeps base exempt (append node) graph (fun id later =>
      graph.ExtendsTo later ∧ later.node? id = some node ∧
        graph.size ≤ id) := by
  have extension := extendsTo_addNode graph node
  refine ⟨⟨?_, state.extension.trans extension⟩, extension, ?_, Nat.le_refl _⟩
  · exact state.wellFormed.addNode arguments fits
  · show (graph.addNode node).node? graph.size = some node
    simp

theorem getElem?_push_of_some {entries : Array β} {position : Nat}
    {entry added : β} (found : entries[position]? = some entry) :
    (entries.push added)[position]? = some entry := by
  rcases Array.getElem?_eq_some_iff.mp found with ⟨inside, _⟩
  rw [Array.getElem?_push_lt inside, ← Array.getElem?_eq_getElem inside, found]

theorem extendsTo_pushIndependentPattern (graph : OperationGraph)
    (entry : Nat × IndexPattern) :
    graph.ExtendsTo { graph with
      independentPatterns := graph.independentPatterns.push entry } where
  nodes _ _ found := found
  independentPatterns _ _ found := getElem?_push_of_some found
  dependentPatterns _ _ found := found

theorem extendsTo_pushDependentPattern (graph : OperationGraph)
    (pattern : IndexPattern) :
    graph.ExtendsTo { graph with
      dependentPatterns := graph.dependentPatterns.push pattern } where
  nodes _ _ found := found
  independentPatterns _ _ found := found
  dependentPatterns _ _ found := getElem?_push_of_some found

theorem addIndependentPattern_keeps (state : base.Continues exempt graph)
    (pattern : IndexPattern) (slot : Nat) :
    Keeps base exempt (addIndependentPattern pattern slot) graph
      (fun location later => graph.ExtendsTo later ∧
        later.independentPatterns[location]? = some (slot, pattern)) := by
  have extension := extendsTo_pushIndependentPattern graph (slot, pattern)
  exact ⟨⟨state.wellFormed.of_nodes_eq rfl extension,
    state.extension.trans extension⟩, extension, Array.getElem?_push_size⟩

theorem addDependentPattern_keeps (state : base.Continues exempt graph)
    (pattern : IndexPattern) :
    Keeps base exempt (addDependentPattern pattern) graph
      (fun location later => graph.ExtendsTo later ∧
        later.dependentPatterns[location]? = some pattern) := by
  have extension := extendsTo_pushDependentPattern graph pattern
  exact ⟨⟨state.wellFormed.of_nodes_eq rfl extension,
    state.extension.trans extension⟩, extension, Array.getElem?_push_size⟩

/-- Hoisting changes a loop start that was not there before. -/
theorem hoist_keeps (state : base.Continues exempt graph)
    (fresh : base.size ≤ start) (finish : Nat) :
    Keeps base exempt (hoist start finish) graph (fun _ _ => True) := by
  refine (read_keeps state _).bind ?_
  rintro ⟨hoisted, moved⟩ _ _ ⟨succeeds, rfl⟩
  refine ⟨⟨state.wellFormed.hoist succeeds, ?_⟩, trivial⟩
  rw [hoist_eq_ok succeeds]
  exact state.extension.passToLoop fresh hoisted

end Build

end OperationGraph

end SparseLoop
