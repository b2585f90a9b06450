import SparseLoop.Proofs.Construction
import SparseLoop.Proofs.Loop.Steps

/-!
# The loop that an insertion builds

An inserted loop consists of nodes that the steps of the insertion add one after
the other, and the body adds its own in between.  Each step leaves what the
earlier ones added, so what a step says about its nodes is still true at the
end.

`insert_represents` reads the whole loop off the graph at the end: what its nodes
are, which patterns their numbers lead to, and in which order the independents
and the results stand.
-/

namespace SparseLoop

open OperationGraph OperationGraph.Build

variable {base graph later : OperationGraph} {indexOperation result : Nat}

namespace LoopModel

variable {model : LoopModel} {indexName : String}
  {nonIndexed temporaries : List Nat}
  {body : List Nat → Nat → Build (List Nat)} {loop : InsertedLoop}

/-- Each slot that is indexed by the iteration is read through its pattern. -/
theorem addIndexedIndependents_reads {ids : List Nat}
    (added : model.addIndexedIndependents indexOperation graph =
      .ok ids later) :
    graph.ExtendsTo later ∧
      ids.length = model.indexedIndependents.length ∧
        ∀ slot id, ids[slot]? = some id → ∃ pattern,
          model.independentPatterns[slot]? = some pattern ∧
            graph.ReadsSlot later readsIndependent indexOperation slot pattern
              id := by
  rw [addIndexedIndependents] at added
  by_cases short : model.independentPatterns.length <
      model.indexedIndependents.length
  · simp only [if_pos short] at added
    cases added
  · simp only [if_neg short] at added
    rcases addIndexed_reads added with ⟨extension, reads⟩
    refine ⟨extension, ?_, fun slot id found => ?_⟩
    · rw [← reads.length_eq, List.length_zipIdx, List.length_take]
      exact Nat.min_eq_left (Nat.le_of_not_lt short)
    · rcases Traversal.exists_getElem? reads.flip found with
        ⟨entry, listed, reads⟩
      rw [List.getElem?_zipIdx, Option.map_eq_some_iff] at listed
      rcases listed with ⟨pattern, taken, rfl⟩
      rw [Nat.zero_add] at reads
      rw [List.getElem?_take] at taken
      split at taken
      · exact ⟨pattern, taken, reads⟩
      · cases taken

/-- The independents of the tape, place by place. -/
theorem independentVector_places
    {indexed independents : List Nat}
    (complete : indexed.length = model.indexedIndependents.length)
    (made : model.independentVector indexed nonIndexed temporaries =
      .ok independents) :
    independents.length = model.tapeIndependentCount ∧
    (∀ slot, slot < model.indexedIndependents.length →
      independents[slot]? = indexed[slot]?) ∧
    (∀ (place : Nat) position,
      model.nonIndexedIndependents[place]? = some position →
        ∃ id, nonIndexed[position.outer]? = some id ∧
          independents[model.indexedIndependents.length + place]? =
            some id) ∧
    ∀ (place : Nat) position, model.temporaries[place]? = some position →
      ∃ id, temporaries[position.outer]? = some id ∧
        independents[model.indexedIndependents.length +
          model.nonIndexedIndependents.length + place]? = some id := by
  rcases independentVector_eq_ok made with
    ⟨_, fixed, temporary, pickedFixed, pickedTemporary, rfl⟩
  have fixedLength := (pick_eq_ok pickedFixed).length_eq
  have temporaryLength := (pick_eq_ok pickedTemporary).length_eq
  rw [← complete, List.take_length]
  refine ⟨?_, ?_, ?_, ?_⟩
  · simp only [List.length_append, tapeIndependentCount]
    omega
  · intro slot inside
    rw [List.append_assoc, List.getElem?_append_left inside]
  · intro place position listed
    rcases Traversal.exists_getElem? (pick_eq_ok pickedFixed) listed with
      ⟨id, picked, found⟩
    refine ⟨id, found, ?_⟩
    rw [List.append_assoc, List.getElem?_append_right (by omega),
      Nat.add_sub_cancel_left]
    have inside := (List.getElem?_eq_some_iff.mp picked).1
    rw [List.getElem?_append_left inside, picked]
  · intro place position listed
    rcases Traversal.exists_getElem? (pick_eq_ok pickedTemporary) listed with
      ⟨id, picked, found⟩
    refine ⟨id, found, ?_⟩
    rw [fixedLength, ← List.length_append,
      List.getElem?_append_right (by omega), Nat.add_sub_cancel_left]
    exact picked

/-- The steps of an insertion, with the graphs between them. -/
theorem insert_eq_ok_iff :
    model.insert indexName nonIndexed temporaries body graph =
        .ok loop later ↔
      ∃ declared used opened inner grown ended indexed results,
        declareIndex indexName graph = .ok loop.indexDeclaration declared ∧
        useIndex loop.indexDeclaration declared =
          .ok loop.indexOperation used ∧
        startLoop loop.indexDeclaration model.iterationCount used =
          .ok loop.start opened ∧
        model.addIndexedIndependents loop.indexOperation opened =
          .ok indexed inner ∧
        model.independentVector indexed nonIndexed temporaries =
          .ok loop.independents ∧
        body loop.independents loop.indexOperation inner =
          .ok results grown ∧
        endLoop loop.start (model.attachPatterns results)
          (IndexSet.ofList [loop.indexOperation]) .assign grown =
            .ok loop.finish ended ∧
        Build.hoist loop.start loop.finish ended = .ok loop.hoisted later := by
  rw [LoopModel.insert]
  constructor
  · intro made
    rcases bind_apply_eq_ok_iff.mp made with ⟨_, declared, declares, made⟩
    rcases bind_apply_eq_ok_iff.mp made with ⟨_, used, uses, made⟩
    rcases bind_apply_eq_ok_iff.mp made with ⟨_, opened, opens, made⟩
    rcases bind_apply_eq_ok_iff.mp made with ⟨indexed, inner, reads, made⟩
    rcases bind_apply_eq_ok_iff.mp made with ⟨_, _, looked, made⟩
    rcases read_of_ok looked with ⟨vector, rfl⟩
    rcases bind_apply_eq_ok_iff.mp made with ⟨results, grown, given, made⟩
    rcases bind_apply_eq_ok_iff.mp made with ⟨_, ended, ends, made⟩
    rcases bind_apply_eq_ok_iff.mp made with ⟨_, _, hoists, made⟩
    cases made
    exact ⟨declared, used, opened, inner, grown, ended, indexed, results,
      declares, uses, opens, reads, vector, given, ends, hoists⟩
  · rintro ⟨declared, used, opened, inner, grown, ended, indexed, results,
      declares, uses, opens, reads, vector, given, ends, hoists⟩
    refine bind_apply_eq_ok_iff.mpr ⟨_, _, declares, ?_⟩
    refine bind_apply_eq_ok_iff.mpr ⟨_, _, uses, ?_⟩
    refine bind_apply_eq_ok_iff.mpr ⟨_, _, opens, ?_⟩
    refine bind_apply_eq_ok_iff.mpr ⟨_, _, reads, ?_⟩
    refine bind_apply_eq_ok_iff.mpr ⟨_, _, read_eq_ok vector, ?_⟩
    refine bind_apply_eq_ok_iff.mpr ⟨_, _, given, ?_⟩
    refine bind_apply_eq_ok_iff.mpr ⟨_, _, ends, ?_⟩
    exact bind_apply_eq_ok_iff.mpr ⟨_, _, hoists, rfl⟩

end LoopModel

/-- A body that received the independents of a loop keeps the graph that it
began with. -/
theorem IsOrdinaryBody.extendsTo {model : LoopModel}
    {body : List Nat → Nat → Build (List Nat)}
    {indexed nonIndexed temporaries independents results : List Nat}
    (ordinary : IsOrdinaryBody base body) (extension : base.ExtendsTo graph)
    (indexedPresent : ∀ id ∈ indexed, id < graph.size)
    (fixedPresent : ∀ id ∈ nonIndexed, id < base.size)
    (temporaryPresent : ∀ id ∈ temporaries, id < base.size)
    (vector : model.independentVector indexed nonIndexed temporaries =
      .ok independents)
    (operationPresent : indexOperation < graph.size)
    (given : body independents indexOperation graph = .ok results later) :
    graph.ExtendsTo later := by
  have present : ∀ id ∈ independents, id < graph.size := by
    intro id member
    rcases LoopModel.mem_independentVector vector member with
      reader | outside | outside
    · exact indexedPresent id reader
    · exact extension.lt_size (fixedPresent id outside)
    · exact extension.lt_size (temporaryPresent id outside)
  have adds := ordinary graph independents indexOperation extension present
    operationPresent
  rw [given] at adds
  exact AddsOrdinary.extendsTo adds

/-- A graph holds a loop as its model describes it, around a body that gave some
results. -/
structure InsertedLoop.Represents (loop : InsertedLoop) (model : LoopModel)
    (indexName : String) (nonIndexed temporaries results : List Nat)
    (before after : OperationGraph) : Prop where
  declaration : before.size ≤ loop.indexDeclaration ∧
    after.node? loop.indexDeclaration = some
      { kind := .indexDeclaration, info := [], arguments := [],
        name := some indexName }
  operation : before.size ≤ loop.indexOperation ∧
    after.node? loop.indexOperation = some
      { kind := .index, info := [],
        arguments := [.node loop.indexDeclaration] }
  /-- The independents that the body received are those of the tape. -/
  count : loop.independents.length = model.tapeIndependentCount
  /-- First come the nodes that read the slots indexed by the iteration. -/
  indexed : ∀ slot, slot < model.indexedIndependents.length →
    ∃ id pattern, loop.independents[slot]? = some id ∧
      model.independentPatterns[slot]? = some pattern ∧
        before.ReadsSlot after LoopModel.readsIndependent loop.indexOperation
          slot pattern id
  /-- Then come the fixed independents, -/
  fixed : ∀ (place : Nat) position,
    model.nonIndexedIndependents[place]? = some position →
      ∃ id, nonIndexed[position.outer]? = some id ∧
        loop.independents[model.indexedIndependents.length + place]? = some id
  /-- and the temporaries last. -/
  temporary : ∀ (place : Nat) position,
    model.temporaries[place]? = some position →
      ∃ id, temporaries[position.outer]? = some id ∧
        loop.independents[model.indexedIndependents.length +
          model.nonIndexedIndependents.length + place]? = some id
  opening : before.size ≤ loop.start ∧
    after.node? loop.start = some
      { kind := .loopStart, info := [model.iterationCount],
        arguments :=
          .node loop.indexDeclaration :: loop.hoisted.map .node }
  /-- The end has one argument per result, in the order of the results. -/
  closing : before.size ≤ loop.finish ∧ ∃ stored : List Nat,
    after.node? loop.finish = some
      { kind := .loopEnd, info := [loop.start],
        arguments := stored.map .node } ∧
      stored.length = results.length ∧
        ∀ (place : Nat) result, results[place]? = some result →
          ∃ id, stored[place]? = some id ∧
            before.StoresResult after loop.indexOperation result
              model.dependentPatterns[place]? id

/-- The results with the patterns at their places. -/
theorem LoopModel.getElem?_attachPatterns {model : LoopModel}
    {results : List Nat} {place : Nat}
    (found : results[place]? = some result) :
    (model.attachPatterns results)[place]? =
      some { node := result, pattern := model.dependentPatterns[place]? } := by
  simp [attachPatterns, found]

/--
An insertion that succeeds keeps the graph that it began with.  The body ran once
with the independents and the index operation of the loop, and the graph at the
end holds the loop that the model describes around what the body gave.
-/
theorem LoopModel.insert_represents (model : LoopModel) (indexName : String)
    {nonIndexed temporaries : List Nat}
    {body : List Nat → Nat → Build (List Nat)}
    (fixedPresent : ∀ id ∈ nonIndexed, id < graph.size)
    (temporaryPresent : ∀ id ∈ temporaries, id < graph.size)
    (ordinary : IsOrdinaryBody graph body) {loop : InsertedLoop}
    (succeeds : model.insert indexName nonIndexed temporaries body graph =
      .ok loop later) :
    graph.ExtendsTo later ∧
    ∃ inner grown results,
      body loop.independents loop.indexOperation inner = .ok results grown ∧
      (∀ other : List Nat → Nat → Build (List Nat),
        other loop.independents loop.indexOperation inner =
            .ok results grown →
          model.insert indexName nonIndexed temporaries other graph =
            .ok loop later) ∧
      graph.ExtendsTo inner ∧ inner.ExtendsTo grown ∧
      (∀ id node, id ≠ loop.start → grown.node? id = some node →
        later.node? id = some node) ∧
      loop.Represents model indexName nonIndexed temporaries results graph
        later := by
  rcases insert_eq_ok_iff.mp succeeds with
    ⟨declared, used, opened, inner, grown, ended, indexed, results, declares,
      uses, starts, reads, vector, given, ends, hoists⟩
  have opens := opens_of_steps declares uses starts
  rcases addIndexedIndependents_reads reads with
    ⟨openedToInner, indexedLength, readers⟩
  rcases independentVector_places indexedLength vector with
    ⟨count, front, fixed, temporary⟩
  have toInner := opens.extension.trans openedToInner
  have innerToGrown : inner.ExtendsTo grown := by
    refine ordinary.extendsTo toInner ?_ fixedPresent temporaryPresent vector
      (openedToInner.lt_size (lt_size_of_node? opens.uses)) given
    intro id member
    rcases List.mem_iff_getElem?.mp member with ⟨slot, listed⟩
    rcases readers slot id listed with ⟨_, _, _, _, _, found, _⟩
    exact lt_size_of_node? found
  rcases endLoop_stores ends with
    ⟨grownToEnded, finishFresh, stored, finish, stores⟩
  rcases moves_of_hoist hoists with ⟨moves, _⟩
  have innerToEnded := innerToGrown.trans grownToEnded
  have openedToEnded := openedToInner.trans innerToEnded
  have started := openedToEnded.nodes loop.start _ opens.starts
  -- all steps after the opening of the loop change at most its start
  have keeps : ended.KeepsAllButStarts later :=
    moves.keepsAllButStarts started rfl
  have keepsOpened := keeps.after openedToEnded
  refine ⟨moves.extendsTo (opens.extension.trans openedToEnded)
    opens.startFresh, inner, grown, results, given, ?_, toInner, innerToGrown,
    ?_, ?_⟩
  · intro other same
    exact insert_eq_ok_iff.mpr ⟨declared, used, opened, inner, grown, ended,
      indexed, results, declares, uses, starts, reads, vector, same, ends,
      hoists⟩
  · intro id node different found
    rw [moves.others id different]
    exact grownToEnded.nodes id node found
  refine
    { declaration := ⟨opens.declarationFresh, ?_⟩
      operation := ⟨opens.operationFresh, ?_⟩
      count := count
      indexed := ?_
      fixed := fixed
      temporary := temporary
      opening := ⟨opens.startFresh, ?_⟩
      closing := ⟨?_, stored, ?_, ?_, ?_⟩ }
  · exact keepsOpened.nodes _ _ opens.declares nofun
  · exact keepsOpened.nodes _ _ opens.uses nofun
  · intro slot inside
    have listed := List.getElem?_eq_getElem (indexedLength ▸ inside)
    rcases readers slot _ listed with ⟨pattern, described, reads⟩
    exact ⟨_, pattern, (front slot inside).trans listed, described,
      reads.mono opens.extension (keeps.after innerToEnded)⟩
  · rcases moves.opening with ⟨_, found, changed⟩
    cases started.symm.trans found
    exact changed
  · exact Nat.le_trans (toInner.trans innerToGrown).size_le finishFresh
  · exact keeps.nodes _ _ finish nofun
  · rw [← stores.length_eq, attachPatterns, List.length_map,
      List.length_zipIdx]
  · intro place result found
    rcases Traversal.exists_getElem? stores (getElem?_attachPatterns found)
      with ⟨id, listed, stores⟩
    exact ⟨id, listed, stores.mono (toInner.trans innerToGrown) keeps⟩

/-- A graph with two independents and the sine of the first one, around which an
earlier loop left its patterns. -/
def sineGraph : OperationGraph where
  nodes := #[
    { kind := .independent, info := [0], arguments := [] },
    { kind := .independent, info := [1], arguments := [] },
    { kind := .sine, info := [], arguments := [.node 0] }]
  independentPatterns := #[(0, ⟨5, 0⟩)]
  dependentPatterns := #[⟨6, 0⟩, ⟨7, 0⟩]

/-- A loop that uses the second of two independents and a temporary, with a
pattern for its first result only. -/
def passingModel : LoopModel where
  id := 0
  iterationCount := 2
  indexedIndependents := [[⟨0, 0⟩, ⟨0, 1⟩]]
  nonIndexedIndependents := [⟨1, 1⟩]
  temporaries := [⟨2, 0⟩]
  independentPatterns := [⟨2, 1⟩]
  dependentPatterns := [⟨3, 0⟩]

/-- The product of `scaledBody`, and the temporary as a second result. -/
def passingBody (independents : List Nat) (indexOperation : Nat) :
    Build (List Nat) := do
  let results ← OperationGraph.scaledBody (independents.take 2) indexOperation
  pure (results ++ independents.drop 2)

theorem isOrdinaryBody_passingBody (outer : OperationGraph) :
    IsOrdinaryBody outer passingBody := by
  intro graph independents indexOperation extension present operation
  have adds := OperationGraph.isOrdinaryBody_scaledBody outer graph
    (independents.take 2) indexOperation extension
    (fun id member => present id (List.mem_of_mem_take member)) operation
  have same : stateAfter (passingBody independents indexOperation graph) =
      stateAfter (OperationGraph.scaledBody (independents.take 2)
        indexOperation graph) := by
    show stateAfter (EStateM.bind _ _ graph) = _
    rw [EStateM.bind]
    cases OperationGraph.scaledBody (independents.take 2) indexOperation
      graph <;> rfl
  rw [same]
  exact adds

/-- The graph with the loop.  The exponential of the body is the node 7, and its
product is the node 8. -/
def passedGraph : OperationGraph where
  nodes := #[
    { kind := .independent, info := [0], arguments := [] },
    { kind := .independent, info := [1], arguments := [] },
    { kind := .sine, info := [], arguments := [.node 0] },
    { kind := .indexDeclaration, info := [], arguments := [],
      name := some "it" },
    { kind := .index, info := [], arguments := [.node 3] },
    { kind := .loopStart, info := [2], arguments := [.node 3, .node 7] },
    { kind := .loopIndexedIndependent, info := [0, 1],
      arguments := [.node 4] },
    { kind := .exponential, info := [], arguments := [.node 1] },
    { kind := .multiply, info := [], arguments := [.node 6, .node 7] },
    { kind := .loopIndexedDependent, info := [2, 0],
      arguments := [.node 8, .node 4] },
    { kind := .loopEnd, info := [5], arguments := [.node 9, .node 2] }]
  independentPatterns := #[(0, ⟨5, 0⟩), (0, ⟨2, 1⟩)]
  dependentPatterns := #[⟨6, 0⟩, ⟨7, 0⟩, ⟨3, 0⟩]

/-- The loop in this graph. -/
def passedLoop : InsertedLoop where
  indexDeclaration := 3
  indexOperation := 4
  start := 5
  finish := 10
  independents := [6, 1, 2]
  hoisted := [7]

/-- The exponential is hoisted, the product is stored through a pattern that
follows two earlier ones, and the temporary stands for itself. -/
theorem insert_represents_passing :
    (∀ id ∈ [0, 1], id < sineGraph.size) ∧
    (∀ id ∈ [2], id < sineGraph.size) ∧
    IsOrdinaryBody sineGraph passingBody ∧
    passingModel.insert "it" [0, 1] [2] passingBody sineGraph =
      .ok passedLoop passedGraph ∧
    sineGraph.ExtendsTo passedGraph ∧
    ∃ results, passedLoop.Represents passingModel "it" [0, 1] [2] results
      sineGraph passedGraph := by
  have ordinary := isOrdinaryBody_passingBody sineGraph
  have fixed : ∀ id ∈ [0, 1], id < sineGraph.size := by decide
  have temporary : ∀ id ∈ [2], id < sineGraph.size := by decide
  have inserted : passingModel.insert "it" [0, 1] [2] passingBody sineGraph =
      .ok passedLoop passedGraph := rfl
  rcases passingModel.insert_represents "it" fixed temporary ordinary inserted
    with ⟨extension, _, _, results, _, _, _, _, _, represents⟩
  exact ⟨fixed, temporary, ordinary, inserted, extension, results, represents⟩

end SparseLoop
