import SparseLoop.Proofs.Loop.Insertion
import SparseLoop.Proofs.Operation.HoistOutcome

/-!
# What the steps of an insertion add

A loop refers to patterns by numbers: the nodes that read independents to those
of one table, the nodes that store results to those of another one.  A step that
adds such a node registers its pattern just before, so the number leads to this
pattern and to none of an earlier loop.

The steps after it keep this true.  All of them only add, apart from the last
one, which gives arguments to the start of the loop.
-/

namespace SparseLoop

open OperationGraph OperationGraph.Build

variable {base graph later final : OperationGraph}
  {slot indexOperation id result : Nat} {pattern : IndexPattern}

namespace OperationGraph

/-- A later graph keeps all nodes of a graph that start no loop, and all
patterns. -/
structure KeepsAllButStarts (graph later : OperationGraph) : Prop where
  nodes : ∀ id node, graph.node? id = some node → node.kind ≠ .loopStart →
    later.node? id = some node
  independentPatterns : ∀ (location : Nat) entry,
    graph.independentPatterns[location]? = some entry →
      later.independentPatterns[location]? = some entry
  dependentPatterns : ∀ (location : Nat) pattern,
    graph.dependentPatterns[location]? = some pattern →
      later.dependentPatterns[location]? = some pattern

theorem ExtendsTo.keepsAllButStarts (extension : graph.ExtendsTo later) :
    graph.KeepsAllButStarts later where
  nodes id node found _ := extension.nodes id node found
  independentPatterns := extension.independentPatterns
  dependentPatterns := extension.dependentPatterns

theorem KeepsAllButStarts.after (extension : base.ExtendsTo graph)
    (keeps : graph.KeepsAllButStarts later) :
    base.KeepsAllButStarts later where
  nodes id node found := keeps.nodes id node (extension.nodes id node found)
  independentPatterns location entry found :=
    keeps.independentPatterns location entry
      (extension.independentPatterns location entry found)
  dependentPatterns location pattern found :=
    keeps.dependentPatterns location pattern
      (extension.dependentPatterns location pattern found)

/-- Passing nodes to the start of a loop changes no other node. -/
theorem Moves.keepsAllButStarts {start : Nat} {hoisted : List Nat}
    {opening : OperationNode} (moves : graph.Moves later start hoisted)
    (found : graph.node? start = some opening)
    (opens : opening.kind = .loopStart) :
    graph.KeepsAllButStarts later where
  nodes id node stored other := by
    rw [moves.others id, stored]
    rintro rfl
    cases found.symm.trans stored
    exact other opens
  independentPatterns location entry stored := by
    rw [moves.independentPatterns, stored]
  dependentPatterns location pattern stored := by
    rw [moves.dependentPatterns, stored]

/-- Nodes that are passed to the start of a new loop leave an earlier graph as
it was. -/
theorem Moves.extendsTo {start : Nat} {hoisted : List Nat}
    (moves : graph.Moves later start hoisted)
    (extension : base.ExtendsTo graph) (fresh : base.size ≤ start) :
    base.ExtendsTo later where
  nodes id node found := by
    rw [moves.others id, extension.nodes id node found]
    rintro rfl
    exact absurd (lt_size_of_node? found) (Nat.not_lt.mpr fresh)
  independentPatterns location entry found := by
    rw [moves.independentPatterns]
    exact extension.independentPatterns location entry found
  dependentPatterns location pattern found := by
    rw [moves.dependentPatterns]
    exact extension.dependentPatterns location pattern found

/-- An array is not longer than one that keeps its entries. -/
theorem size_le_of_keeps {β : Type} {entries more : Array β}
    (keeps : ∀ (location : Nat) entry, entries[location]? = some entry →
      more[location]? = some entry) : entries.size ≤ more.size := by
  refine Nat.le_of_not_lt fun shorter => ?_
  have stored := keeps _ _ (Array.getElem?_eq_getElem shorter)
  rw [Array.getElem?_eq_none (Nat.le_refl _)] at stored
  cases stored

/-! ## Nodes that refer to patterns -/

/-- A node was added that is indexed by the iteration, and its number leads to a
new pattern with the slot that it fills. -/
def ReadsSlot (before after : OperationGraph) (mark indexOperation slot : Nat)
    (pattern : IndexPattern) (id : Nat) : Prop :=
  before.size ≤ id ∧ ∃ location,
    before.independentPatterns.size ≤ location ∧
      after.node? id = some
        { kind := .loopIndexedIndependent, info := [mark, location],
          arguments := [.node indexOperation] } ∧
        after.independentPatterns[location]? = some (slot, pattern)

/-- The argument of a loop end for a result: the result itself if it has no
pattern, and else a node that was added to store it, whose number leads to a new
pattern, the one of the result. -/
def StoresResult (before after : OperationGraph) (indexOperation result : Nat)
    (pattern : Option IndexPattern) (id : Nat) : Prop :=
  match pattern with
  | none => id = result
  | some pattern => before.size ≤ id ∧ ∃ location,
      before.dependentPatterns.size ≤ location ∧
        after.node? id = some
          { kind := .loopIndexedDependent, info := [location, 0],
            arguments := [.node result, .node indexOperation] } ∧
          after.dependentPatterns[location]? = some pattern

theorem ReadsSlot.mono {mark : Nat}
    (reads : graph.ReadsSlot later mark indexOperation slot pattern id)
    (first : base.ExtendsTo graph) (last : later.KeepsAllButStarts final) :
    base.ReadsSlot final mark indexOperation slot pattern id := by
  rcases reads with ⟨fresh, location, unused, found, registered⟩
  refine ⟨Nat.le_trans first.size_le fresh, location, ?_, ?_, ?_⟩
  · exact Nat.le_trans (size_le_of_keeps first.independentPatterns) unused
  · exact last.nodes id _ found nofun
  · exact last.independentPatterns location _ registered

theorem StoresResult.mono {pattern : Option IndexPattern}
    (stores : graph.StoresResult later indexOperation result pattern id)
    (first : base.ExtendsTo graph) (last : later.KeepsAllButStarts final) :
    base.StoresResult final indexOperation result pattern id := by
  cases pattern with
  | none => exact stores
  | some pattern =>
    rcases stores with ⟨fresh, location, unused, found, registered⟩
    refine ⟨Nat.le_trans first.size_le fresh, location, ?_, ?_, ?_⟩
    · exact Nat.le_trans (size_le_of_keeps first.dependentPatterns) unused
    · exact last.nodes id _ found nofun
    · exact last.dependentPatterns location _ registered

namespace Build

theorem append_adds_one {node : OperationNode}
    (added : append node graph = .ok id later) :
    graph.ExtendsTo later ∧ graph.size ≤ id ∧ later.node? id = some node := by
  cases added
  refine ⟨extendsTo_addNode graph node, Nat.le_refl _, ?_⟩
  show (graph.addNode node).node? graph.size = some node
  simp

theorem read_of_ok {α : Type} {query : OperationGraph → Except Failure α}
    {value : α} (looked : Build.read query graph = .ok value later) :
    query graph = .ok value ∧ graph = later := by
  have ends := read_ends query graph
  rw [looked] at ends
  exact ⟨ends.1, ends.2.symm⟩

end Build

/-! ## Steps of an insertion -/

/-- A graph was extended by the nodes with which a loop begins. -/
structure Opens (graph opened : OperationGraph) (indexName : String)
    (iterations declaration operation start : Nat) : Prop where
  extension : graph.ExtendsTo opened
  declarationFresh : graph.size ≤ declaration
  declares : opened.node? declaration = some
    { kind := .indexDeclaration, info := [], arguments := [],
      name := some indexName }
  operationFresh : graph.size ≤ operation
  uses : opened.node? operation = some
    { kind := .index, info := [], arguments := [.node declaration] }
  startFresh : graph.size ≤ start
  starts : opened.node? start = some
    { kind := .loopStart, info := [iterations],
      arguments := [.node declaration] }

theorem opens_of_steps {declared used opened : OperationGraph}
    {indexName : String} {iterations declaration operation start : Nat}
    (declares : declareIndex indexName graph = .ok declaration declared)
    (uses : useIndex declaration declared = .ok operation used)
    (starts : startLoop declaration iterations used = .ok start opened) :
    graph.Opens opened indexName iterations declaration operation start := by
  rcases append_adds_one declares with ⟨toDeclared, first, declaredThere⟩
  rcases append_adds_one uses with ⟨toUsed, second, usedThere⟩
  rcases append_adds_one starts with ⟨toOpened, third, startedThere⟩
  have throughUsed := toDeclared.trans toUsed
  refine ⟨throughUsed.trans toOpened, first, ?_, ?_, ?_, ?_, startedThere⟩
  · exact (toUsed.trans toOpened).nodes _ _ declaredThere
  · exact Nat.le_trans toDeclared.size_le second
  · exact toOpened.nodes _ _ usedThere
  · exact Nat.le_trans throughUsed.size_le third

/-- One node per pattern reads its slot. -/
theorem addIndexed_reads {mark : Nat} {patterns : List IndexPattern}
    {ids : List Nat}
    (added : LoopModel.addIndexed mark indexOperation slot patterns graph =
      .ok ids later) :
    graph.ExtendsTo later ∧
      List.Forall₂
        (fun entry id =>
          graph.ReadsSlot later mark indexOperation entry.2 entry.1 id)
        (patterns.zipIdx slot) ids := by
  induction patterns generalizing slot graph ids with
  | nil =>
    cases added
    exact ⟨.refl _, .nil⟩
  | cons pattern rest ih =>
    rw [LoopModel.addIndexed] at added
    rcases bind_apply_eq_ok_iff.mp added with
      ⟨location, second, registered, added⟩
    rcases bind_apply_eq_ok_iff.mp added with ⟨id, third, made, added⟩
    rcases bind_apply_eq_ok_iff.mp added with ⟨others, last, more, finished⟩
    cases finished
    cases registered
    rcases append_adds_one made with ⟨toThird, fresh, found⟩
    rcases ih more with ⟨toLast, reads⟩
    have toSecond := extendsTo_pushIndependentPattern graph (slot, pattern)
    have extension := toSecond.trans toThird
    refine ⟨extension.trans toLast, .cons ?_ ?_⟩
    · exact ⟨fresh, _, Nat.le_refl _, toLast.nodes id _ found,
        toLast.independentPatterns _ _
          (toThird.independentPatterns _ _ Array.getElem?_push_size)⟩
    · exact reads.imp fun _ _ reads =>
        reads.mono extension (ExtendsTo.refl later).keepsAllButStarts

/-- A result is stored through its pattern, or stands for itself. -/
theorem storeResult_stores {given : LoopResult}
    (stored : storeResult (IndexSet.ofList [indexOperation]) .assign given
      graph = .ok id later) :
    graph.ExtendsTo later ∧
      graph.StoresResult later indexOperation given.node given.pattern id := by
  rcases bind_apply_eq_ok_iff.mp stored with ⟨node, first, looked, made⟩
  rcases read_of_ok looked with ⟨_, rfl⟩
  cases attached : given.pattern with
  | none =>
    rw [attached] at made
    cases made
    exact ⟨.refl _, rfl⟩
  | some pattern =>
    rw [attached] at made
    rcases bind_apply_eq_ok_iff.mp made with
      ⟨location, second, registered, made⟩
    cases registered
    rcases append_adds_one made with ⟨toLater, fresh, found⟩
    have toSecond := extendsTo_pushDependentPattern graph pattern
    exact ⟨toSecond.trans toLater, fresh, _, Nat.le_refl _, found,
      toLater.dependentPatterns _ _ Array.getElem?_push_size⟩

theorem storeResults_stores {results : List LoopResult} {ids : List Nat}
    (made : results.mapM
      (storeResult (IndexSet.ofList [indexOperation]) .assign) graph =
        .ok ids later) :
    graph.ExtendsTo later ∧
      List.Forall₂
        (fun given id => graph.StoresResult later indexOperation given.node
          given.pattern id) results ids := by
  induction results generalizing graph ids with
  | nil =>
    cases made
    exact ⟨.refl _, .nil⟩
  | cons given rest ih =>
    rw [List.mapM_cons] at made
    rcases bind_apply_eq_ok_iff.mp made with ⟨id, second, first, made⟩
    rcases bind_apply_eq_ok_iff.mp made with ⟨others, last, more, finished⟩
    cases finished
    rcases storeResult_stores first with ⟨toSecond, stores⟩
    rcases ih more with ⟨toLast, storesRest⟩
    refine ⟨toSecond.trans toLast, .cons ?_ ?_⟩
    · exact stores.mono (.refl graph) toLast.keepsAllButStarts
    · exact storesRest.imp fun _ _ stores =>
        stores.mono toSecond (ExtendsTo.refl later).keepsAllButStarts

/-- The end of a loop follows the nodes that store its results. -/
theorem endLoop_stores {start finish : Nat} {results : List LoopResult}
    (ended : endLoop start results (IndexSet.ofList [indexOperation]) .assign
      graph = .ok finish later) :
    graph.ExtendsTo later ∧ graph.size ≤ finish ∧ ∃ stored : List Nat,
      later.node? finish = some
        { kind := .loopEnd, info := [start],
          arguments := stored.map .node } ∧
        List.Forall₂
          (fun given id => graph.StoresResult later indexOperation given.node
            given.pattern id) results stored := by
  rcases bind_apply_eq_ok_iff.mp ended with ⟨opening, first, looked, made⟩
  rcases read_of_ok looked with ⟨_, rfl⟩
  by_cases opens : opening.kind = .loopStart
  · simp only [opens, ne_eq, not_true_eq_false, if_false] at made
    rcases bind_apply_eq_ok_iff.mp made with ⟨stored, second, wrapped, made⟩
    rcases storeResults_stores wrapped with ⟨toSecond, stores⟩
    rcases append_adds_one made with ⟨toLater, fresh, found⟩
    refine ⟨toSecond.trans toLater, Nat.le_trans toSecond.size_le fresh,
      stored, found, ?_⟩
    exact stores.imp fun _ _ stores =>
      stores.mono (.refl graph) toLater.keepsAllButStarts
  · simp only [ne_eq, opens, not_false_eq_true, if_true] at made
    cases made

end OperationGraph

end SparseLoop
