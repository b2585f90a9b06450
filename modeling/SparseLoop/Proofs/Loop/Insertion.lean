import SparseLoop.Loop.Insertion
import SparseLoop.Proofs.Operation.Building

/-!
# Insertion of loops into well-formed graphs

The nodes around a loop body refer to patterns that were registered just before
and to the start of the loop, so each step keeps a graph well formed.  The body
is any builder that adds ordinary nodes over existing ones; it may fail, and it
may give results that do not exist.

`insert_keeps` joins the steps.  Wherever an insertion ends, all nodes and
patterns of the graph before it are kept, since the one node that is changed is
the start of the new loop.
-/

namespace SparseLoop

open OperationGraph OperationGraph.Build

variable {graph base : OperationGraph} {exempt : OperationNode → Prop}

theorem argumentNodes_map_node {kind : OperationKind} {info ids : List Nat} :
    ({ kind, info, arguments := ids.map .node } :
      OperationNode).argumentNodes = ids := by
  simp [OperationNode.argumentNodes, List.filterMap_map, Function.comp_def,
    Argument.node?]

/-! ## Nodes around the body -/

namespace LoopModel

/-- One indexed node per pattern, each referring to its pattern. -/
theorem addIndexed_keeps (mark : Nat) {indexOperation : Nat}
    (slot : Nat) (patterns : List IndexPattern)
    (state : base.Continues exempt graph)
    (indexed : indexOperation < graph.size) :
    Keeps base exempt (addIndexed mark indexOperation slot patterns) graph
      (fun ids later => graph.ExtendsTo later ∧ ∀ id ∈ ids, id < later.size) := by
  induction patterns generalizing slot graph with
  | nil => exact ⟨state, .refl graph, by simp⟩
  | cons pattern rest ih =>
    rw [addIndexed]
    refine (addIndependentPattern_keeps state pattern slot).bind ?_
    rintro location second secondState ⟨toSecond, registered⟩
    refine (append_keeps secondState ?_ ?_).bind ?_
    · intro child uses
      rw [mem_argumentNodes] at uses
      simp only [List.mem_singleton, Argument.node.injEq] at uses
      rw [uses]
      exact toSecond.lt_size indexed
    · intro _
      refine ⟨fun _ => ⟨location, _, rfl, registered⟩, ?_, ?_⟩ <;>
      · intro kind
        cases kind
    rintro id third thirdState ⟨toThird, found, _⟩
    refine (ih (slot + 1) thirdState
      (toThird.lt_size (toSecond.lt_size indexed))).bind ?_
    rintro others last lastState ⟨toLast, present⟩
    refine ⟨lastState, (toSecond.trans toThird).trans toLast, ?_⟩
    intro other member
    rcases List.mem_cons.mp member with equal | later
    · rw [equal]
      exact toLast.lt_size (lt_size_of_node? found)
    · exact present other later

theorem addIndexedIndependents_keeps (model : LoopModel)
    {indexOperation : Nat} (state : base.Continues exempt graph)
    (indexed : indexOperation < graph.size) :
    Keeps base exempt (model.addIndexedIndependents indexOperation) graph
      (fun ids later => graph.ExtendsTo later ∧ ∀ id ∈ ids, id < later.size) := by
  rw [addIndexedIndependents]
  by_cases short : model.independentPatterns.length <
      model.indexedIndependents.length
  · simp only [if_pos short]
    exact state
  · simp only [if_neg short]
    exact addIndexed_keeps _ 0 _ state indexed

/-- What is picked are the nodes at the outer places. -/
theorem pick_eq_ok {table : SlotTable} {nodes picked : List Nat}
    {positions : List LoopPosition}
    (made : pick table nodes positions = .ok picked) :
    List.Forall₂ (fun position id => nodes[position.outer]? = some id)
      positions picked := by
  refine (Traversal.mapM_eq_ok_iff.mp made).imp fun position id looked => ?_
  split at looked
  · next found =>
    cases looked
    exact found
  · cases looked

theorem mem_pick {table : SlotTable} {nodes picked : List Nat}
    {positions : List LoopPosition}
    (made : pick table nodes positions = .ok picked) {id : Nat}
    (member : id ∈ picked) : id ∈ nodes := by
  rcases Traversal.exists_left_of_mem (pick_eq_ok made) member with
    ⟨position, _, found⟩
  exact List.mem_of_getElem? found

/-- The independents of the tape stand in the order of their kinds. -/
theorem independentVector_eq_ok {model : LoopModel}
    {indexed nonIndexed temporaries independents : List Nat}
    (made : model.independentVector indexed nonIndexed temporaries =
      .ok independents) :
    model.indexedIndependents.length ≤ indexed.length ∧
      ∃ fixed temporary,
        pick .nonIndexedIndependents nonIndexed model.nonIndexedIndependents =
            .ok fixed ∧
          pick .temporaries temporaries model.temporaries = .ok temporary ∧
            independents =
              indexed.take model.indexedIndependents.length ++ fixed ++
                temporary := by
  rw [independentVector] at made
  by_cases short : indexed.length < model.indexedIndependents.length
  · simp only [if_pos short] at made
    cases made
  · simp only [if_neg short] at made
    rcases Traversal.bind_eq_ok_iff.mp made with ⟨fixed, pickedFixed, made⟩
    rcases Traversal.bind_eq_ok_iff.mp made with
      ⟨temporary, pickedTemporary, made⟩
    cases made
    exact ⟨Nat.le_of_not_lt short, fixed, temporary, pickedFixed,
      pickedTemporary, rfl⟩

/-- The independents of the tape are nodes that were given. -/
theorem mem_independentVector {model : LoopModel}
    {indexed nonIndexed temporaries independents : List Nat}
    (made : model.independentVector indexed nonIndexed temporaries =
      .ok independents) {id : Nat} (member : id ∈ independents) :
    id ∈ indexed ∨ id ∈ nonIndexed ∨ id ∈ temporaries := by
  rcases independentVector_eq_ok made with
    ⟨_, fixed, temporary, pickedFixed, pickedTemporary, rfl⟩
  rcases List.mem_append.mp member with front | last
  · rcases List.mem_append.mp front with first | second
    · exact .inl (List.mem_of_mem_take first)
    · exact .inr (.inl (mem_pick pickedFixed second))
  · exact .inr (.inr (mem_pick pickedTemporary last))

end LoopModel

namespace OperationGraph.Build

theorem storeResult_keeps {indexOperations : IndexSet} (mode : StoreMode)
    (result : LoopResult) (state : base.Continues exempt graph)
    (indexed : ∀ id ∈ indexOperations, id < graph.size) :
    Keeps base exempt (storeResult indexOperations mode result) graph
      (fun id later => graph.ExtendsTo later ∧ id < later.size) := by
  rw [storeResult]
  refine (read_keeps state _).bind ?_
  rintro node _ _ ⟨looked, rfl⟩
  have present := lt_size_of_node? (node_eq_ok.mp looked)
  cases result.pattern with
  | none => exact ⟨state, .refl _, present⟩
  | some pattern =>
    refine (addDependentPattern_keeps state pattern).bind ?_
    rintro location second secondState ⟨toSecond, registered⟩
    refine (append_keeps secondState ?_ ?_).mono ?_
    · rw [argumentNodes_map_node]
      intro child uses
      apply toSecond.lt_size
      rcases List.mem_cons.mp uses with equal | operation
      · rw [equal]
        exact present
      · exact indexed child operation
    · intro _
      refine ⟨?_, fun _ => ⟨location, pattern, rfl, registered⟩, ?_⟩ <;>
      · intro kind
        cases kind
    · rintro id third ⟨toThird, found, _⟩
      exact ⟨toSecond.trans toThird, lt_size_of_node? found⟩

theorem storeResults_keeps {indexOperations : IndexSet} (mode : StoreMode)
    (results : List LoopResult) (state : base.Continues exempt graph)
    (indexed : ∀ id ∈ indexOperations, id < graph.size) :
    Keeps base exempt (results.mapM (storeResult indexOperations mode)) graph
      (fun ids later => graph.ExtendsTo later ∧ ∀ id ∈ ids, id < later.size) := by
  induction results generalizing graph with
  | nil => exact ⟨state, .refl graph, by simp⟩
  | cons result rest ih =>
    rw [List.mapM_cons]
    refine (storeResult_keeps mode result state indexed).bind ?_
    rintro id second secondState ⟨toSecond, present⟩
    refine (ih secondState fun other member =>
      toSecond.lt_size (indexed other member)).bind ?_
    rintro others last lastState ⟨toLast, inside⟩
    refine ⟨lastState, toSecond.trans toLast, ?_⟩
    intro other member
    rcases List.mem_cons.mp member with equal | later
    · rw [equal]
      exact toLast.lt_size present
    · exact inside other later

/-- The end of a loop refers to its start. -/
theorem endLoop_keeps {indexOperations : IndexSet} (start : Nat)
    (results : List LoopResult) (mode : StoreMode)
    (state : base.Continues exempt graph)
    (indexed : ∀ id ∈ indexOperations, id < graph.size) :
    Keeps base exempt (endLoop start results indexOperations mode) graph
      (fun _ _ => True) := by
  rw [endLoop]
  refine (read_keeps state _).bind ?_
  rintro opening _ _ ⟨looked, rfl⟩
  by_cases opens : opening.kind = .loopStart
  · simp only [opens, ne_eq, not_true_eq_false, if_false]
    refine (storeResults_keeps mode results state indexed).bind ?_
    rintro stored second secondState ⟨toSecond, present⟩
    refine (append_keeps secondState ?_ ?_).mono fun _ _ _ => trivial
    · rw [argumentNodes_map_node]
      exact present
    · intro _
      refine ⟨?_, ?_, fun _ => ⟨start, opening, rfl,
        toSecond.nodes start opening (node_eq_ok.mp looked), opens⟩⟩ <;>
      · intro kind
        cases kind
  · simp only [ne_eq, opens, not_false_eq_true, if_true]
    exact throw_keeps state _ _

end OperationGraph.Build

/-! ## The whole loop -/

/-- A loop body that only adds ordinary nodes over existing ones, in any graph
that extends the one around the loop.  It may fail. -/
def IsOrdinaryBody (outer : OperationGraph)
    (body : List Nat → Nat → Build (List Nat)) : Prop :=
  ∀ graph independents indexOperation, outer.ExtendsTo graph →
    (∀ id ∈ independents, id < graph.size) → indexOperation < graph.size →
      graph.AddsOrdinary (stateAfter (body independents indexOperation graph))

theorem IsOrdinaryBody.keeps {outer : OperationGraph}
    {body : List Nat → Nat → Build (List Nat)}
    (ordinary : IsOrdinaryBody outer body)
    (state : base.Continues exempt graph) (extension : outer.ExtendsTo graph)
    {independents : List Nat} {indexOperation : Nat}
    (present : ∀ id ∈ independents, id < graph.size)
    (indexed : indexOperation < graph.size) :
    Keeps base exempt (body independents indexOperation) graph
      (fun _ later => graph.ExtendsTo later) := by
  have adds := ordinary graph independents indexOperation extension present
    indexed
  rw [Keeps]
  cases outcome : body independents indexOperation graph with
  | ok results later =>
    rw [outcome] at adds
    exact ⟨adds.continues state, adds.extendsTo⟩
  | error failure later =>
    rw [outcome] at adds
    exact adds.continues state

/-- An insertion of a loop keeps a graph well formed, with all that was in it
before. -/
theorem LoopModel.insert_keeps (model : LoopModel) (indexName : String)
    {nonIndexed temporaries : List Nat}
    {body : List Nat → Nat → Build (List Nat)}
    (wellFormed : base.WellFormedExcept exempt)
    (fixed : ∀ id ∈ nonIndexed, id < base.size)
    (temporary : ∀ id ∈ temporaries, id < base.size)
    (ordinary : IsOrdinaryBody base body) :
    Keeps base exempt (model.insert indexName nonIndexed temporaries body) base
      (fun _ _ => True) := by
  have state : base.Continues exempt base := ⟨wellFormed, .refl base⟩
  rw [LoopModel.insert]
  refine (append_keeps state ?_ fun _ => fits_of_ordinary rfl).bind ?_
  · simp [OperationNode.argumentNodes]
  rintro declaration first firstState ⟨toFirst, declared, _⟩
  have declaredSize := lt_size_of_node? declared
  refine (append_keeps firstState ?_ fun _ => fits_of_ordinary rfl).bind ?_
  · simpa [OperationNode.argumentNodes, Argument.node?] using declaredSize
  rintro indexOperation second secondState ⟨toSecond, used, _⟩
  refine (append_keeps secondState ?_ fun _ => fits_of_ordinary rfl).bind ?_
  · simpa [OperationNode.argumentNodes, Argument.node?] using
      toSecond.lt_size declaredSize
  rintro start third thirdState ⟨toThird, started, fresh⟩
  have indexedSize := toThird.lt_size (lt_size_of_node? used)
  refine (model.addIndexedIndependents_keeps thirdState indexedSize).bind ?_
  rintro indexed fourth fourthState ⟨toFourth, readers⟩
  refine (read_keeps fourthState _).bind ?_
  rintro independents _ _ ⟨vector, rfl⟩
  have toBody := fourthState.extension
  refine (ordinary.keeps fourthState toBody ?_
    (toFourth.lt_size indexedSize)).bind ?_
  · intro id member
    rcases LoopModel.mem_independentVector vector member with
      reader | given | given
    · exact readers id reader
    · exact toBody.lt_size (fixed id given)
    · exact toBody.lt_size (temporary id given)
  rintro results fifth fifthState toFifth
  refine (endLoop_keeps start _ _ fifthState ?_).bind ?_
  · intro id member
    rw [IndexSet.mem_ofList, List.mem_singleton] at member
    rw [member]
    exact toFifth.lt_size (toFourth.lt_size indexedSize)
  rintro finish sixth sixthState _
  -- the start of this loop is not in the graph around it
  have outside : base.size ≤ start :=
    Nat.le_trans secondState.extension.size_le fresh
  refine (hoist_keeps sixthState outside finish).bind ?_
  rintro hoisted last lastState _
  exact ⟨lastState, trivial⟩

end SparseLoop
