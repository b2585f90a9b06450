import SparseLoop.Proofs.Branch.Condition
import SparseLoop.Proofs.Loop.Insertion

/-!
# Construction of graphs

A graph is built by calls in sequence: plain nodes, conditions, skeletons and
loops.  A call may fail at any point, and what it did before stays.

Each call over existing nodes keeps a graph well formed and everything that was
in it in place, so a sequence does.  The one exception is a plain operation that
is given the kind of a loop node: it gets no numbers, so it refers to no pattern
and to no loop start.
-/

namespace SparseLoop

namespace OperationGraph

/-- A call that extends a graph. -/
inductive Call where
  | insertLoop (model : LoopModel) (indexName : String)
      (nonIndexed temporaries : List Nat)
      (body : List Nat → Nat → Build (List Nat))
  | readDependents (model : LoopModel) (indexOperation : Nat)
  | findSkeleton (skeletons : List (Skeleton Nat)) (shape : BranchShape)
      (indexOperation lastIteration : Nat)
  | closeSkeleton (skeleton : Skeleton Nat)
  | addCondition (active spare : IndexSet)
      (lastIteration indexOperation : Nat)
  | independent (index : Nat)
  | operation (kind : OperationKind) (operands : List Nat)
  | declareIndex (name : String)
  | useIndex (declaration : Nat)

namespace Call

/-- The graph after a call, whether it succeeded or failed. -/
def perform (graph : OperationGraph) : Call → OperationGraph
  | insertLoop model indexName nonIndexed temporaries body =>
    stateAfter (model.insert indexName nonIndexed temporaries body graph)
  | readDependents model indexOperation =>
    stateAfter (model.addIndexedDependents indexOperation graph)
  | findSkeleton skeletons shape indexOperation lastIteration =>
    stateAfter (Skeleton.findOrCreate skeletons shape indexOperation
      lastIteration graph)
  | closeSkeleton skeleton => stateAfter (skeleton.close graph)
  | addCondition active spare lastIteration indexOperation =>
    stateAfter (Build.addCondition active spare lastIteration indexOperation
      graph)
  | independent index => stateAfter (Build.independent index graph)
  | operation kind operands => stateAfter (Build.operation kind operands graph)
  | declareIndex name => stateAfter (Build.declareIndex name graph)
  | useIndex declaration => stateAfter (Build.useIndex declaration graph)

/-- The nodes handed to a call exist, and a loop body only adds ordinary nodes
over existing ones.  Where a call looks for a node itself, any node may be
handed in. -/
def IsAdmissible (graph : OperationGraph) : Call → Prop
  | insertLoop _ _ nonIndexed temporaries body =>
    (∀ id ∈ nonIndexed, id < graph.size) ∧
      (∀ id ∈ temporaries, id < graph.size) ∧ IsOrdinaryBody graph body
  | readDependents _ indexOperation => indexOperation < graph.size
  | findSkeleton _ _ _ _ => True
  | closeSkeleton skeleton =>
    ∀ branch ∈ skeleton.branches.values, branch.body < graph.size
  | addCondition _ _ _ _ => True
  | independent _ => True
  | operation _ operands => ∀ id ∈ operands, id < graph.size
  | declareIndex _ => True
  | useIndex declaration => declaration < graph.size

end Call

/-- The graph after several calls in order. -/
def performAll (graph : OperationGraph) (calls : List Call) :
    OperationGraph :=
  calls.foldl Call.perform graph

/-- Each of several calls in order is admissible in the graph that it gets. -/
def AreAdmissible (graph : OperationGraph) : List Call → Prop
  | [] => True
  | call :: rest =>
    call.IsAdmissible graph ∧ AreAdmissible (call.perform graph) rest

/-- A loop node made by a plain operation call. -/
def IsBareLoopNode (calls : List Call) (node : OperationNode) : Prop :=
  node.kind.refersToLoop = true ∧
    ∃ kind operands, Call.operation kind operands ∈ calls ∧
      node = { kind, info := [], arguments := operands.map .node }

variable {graph base : OperationGraph} {exempt : OperationNode → Prop}
  {call : Call} {calls : List Call}

/-! ## One call -/

/-- An operation of an ordinary kind over existing nodes may be added. -/
theorem operation_adds {kind : OperationKind} {operands : List Nat}
    (ordinary : kind.refersToLoop = false)
    (present : ∀ id ∈ operands, id < graph.size) :
    Build.Adds (Build.operation kind operands) graph
      (fun id later => id < later.size) := by
  refine (Build.append_adds ordinary ?_).mono
    fun _ _ _ found => lt_size_of_node? found
  rw [argumentNodes_map_node]
  exact present

theorem operation_keeps {kind : OperationKind} {operands : List Nat}
    (state : base.Continues exempt graph)
    (present : ∀ id ∈ operands, id < graph.size)
    (bare : kind.refersToLoop = true →
      exempt { kind, info := [], arguments := operands.map .node }) :
    Build.Keeps base exempt (Build.operation kind operands) graph
      (fun _ _ => True) := by
  refine (Build.append_keeps state ?_ ?_).mono fun _ _ _ => trivial
  · rw [argumentNodes_map_node]
    exact present
  · intro notExempt
    apply fits_of_ordinary
    exact Bool.eq_false_iff.mpr fun refers => notExempt (bare refers)

/-- An admissible call keeps a graph well formed, and what was in it. -/
theorem Call.perform_continues (admissible : call.IsAdmissible graph)
    (wellFormed : graph.WellFormedExcept exempt)
    (bare : ∀ node, IsBareLoopNode [call] node → exempt node) :
    graph.Continues exempt (call.perform graph) := by
  have state : graph.Continues exempt graph := ⟨wellFormed, .refl graph⟩
  cases call with
  | insertLoop model indexName nonIndexed temporaries body =>
    rcases admissible with ⟨fixed, temporary, ordinary⟩
    exact (model.insert_keeps indexName wellFormed fixed temporary
      ordinary).stateAfter
  | readDependents model indexOperation =>
    exact (LoopModel.addIndexed_keeps _ _ _ state admissible).stateAfter
  | findSkeleton skeletons shape indexOperation lastIteration =>
    exact ((Skeleton.findOrCreate_adds skeletons shape indexOperation
      lastIteration graph).keeps state).stateAfter
  | closeSkeleton skeleton =>
    exact ((Skeleton.close_adds admissible).keeps state).stateAfter
  | addCondition active spare lastIteration indexOperation =>
    exact ((addCondition_adds active spare lastIteration indexOperation
      graph).keeps state).stateAfter
  | independent index =>
    refine (Build.append_keeps state ?_ fun _ =>
      fits_of_ordinary rfl).stateAfter
    simp [OperationNode.argumentNodes]
  | operation kind operands =>
    refine (operation_keeps state admissible ?_).stateAfter
    intro refers
    exact bare _ ⟨refers, kind, operands, List.mem_singleton_self _, rfl⟩
  | declareIndex name =>
    refine (Build.append_keeps state ?_ fun _ =>
      fits_of_ordinary rfl).stateAfter
    simp [OperationNode.argumentNodes]
  | useIndex declaration =>
    refine (Build.append_keeps state ?_ fun _ =>
      fits_of_ordinary rfl).stateAfter
    have declared : declaration < graph.size := admissible
    simpa [OperationNode.argumentNodes, Argument.node?] using declared

/-! ## Several calls -/

theorem performAll_append (graph : OperationGraph)
    (earlier later : List Call) :
    graph.performAll (earlier ++ later) =
      (graph.performAll earlier).performAll later :=
  List.foldl_append

theorem AreAdmissible.append {earlier later : List Call}
    (admissible : graph.AreAdmissible (earlier ++ later)) :
    graph.AreAdmissible earlier ∧
      (graph.performAll earlier).AreAdmissible later := by
  induction earlier generalizing graph with
  | nil => exact ⟨trivial, admissible⟩
  | cons call rest ih =>
    rcases ih admissible.2 with ⟨first, second⟩
    exact ⟨⟨admissible.1, first⟩, second⟩

theorem IsBareLoopNode.mono {some all : List Call}
    (among : ∀ call ∈ some, call ∈ all) {node : OperationNode}
    (bare : IsBareLoopNode some node) : IsBareLoopNode all node := by
  rcases bare with ⟨refers, kind, operands, member, made⟩
  exact ⟨refers, kind, operands, among _ member, made⟩

/-- Admissible calls keep a graph well formed, and what was in it. -/
theorem performAll_continues (admissible : graph.AreAdmissible calls)
    (wellFormed : graph.WellFormedExcept exempt)
    (bare : ∀ node, IsBareLoopNode calls node → exempt node) :
    graph.Continues exempt (graph.performAll calls) := by
  induction calls generalizing graph with
  | nil => exact ⟨wellFormed, .refl graph⟩
  | cons call rest ih =>
    have first := Call.perform_continues admissible.1 wellFormed
      fun node made => bare node (made.mono (by simp))
    have others := ih admissible.2 first.wellFormed
      fun node made => bare node (made.mono (by simp +contextual))
    exact ⟨others.wellFormed, first.extension.trans others.extension⟩

/--
After any admissible calls on the empty graph, the graph is well formed but for
loop nodes made by plain operation calls, and it keeps every node and every
pattern of the graphs before.  It is well formed throughout if plain operations
have ordinary kinds.
-/
theorem construction_wellFormed
    (admissible : ({} : OperationGraph).AreAdmissible calls) :
    (({} : OperationGraph).performAll calls).WellFormedExcept
        (IsBareLoopNode calls) ∧
      ((∀ kind operands, Call.operation kind operands ∈ calls →
          kind.refersToLoop = false) →
        (({} : OperationGraph).performAll calls).WellFormed) ∧
      ∀ earlier later, calls = earlier ++ later →
        (({} : OperationGraph).performAll earlier).ExtendsTo
          (({} : OperationGraph).performAll calls) := by
  have continues := performAll_continues admissible .empty fun _ made => made
  refine ⟨continues.wellFormed, ?_, ?_⟩
  · intro ordinary
    apply continues.wellFormed.mono
    rintro node ⟨refers, kind, operands, member, rfl⟩
    rw [ordinary kind operands member] at refers
    cases refers
  · rintro earlier later rfl
    rcases admissible.append with ⟨first, second⟩
    have before : ({} : OperationGraph).Continues (fun _ => True)
        (({} : OperationGraph).performAll earlier) :=
      performAll_continues first .empty fun _ _ => trivial
    rw [performAll_append]
    exact (performAll_continues second before.wellFormed
      fun _ _ => trivial).extension

/-- A loop whose body multiplies an indexed value by the exponential of a fixed
one. -/
def scaledModel : LoopModel where
  id := 0
  iterationCount := 2
  indexedIndependents := [[⟨0, 0⟩, ⟨0, 1⟩]]
  nonIndexedIndependents := [⟨1, 0⟩]
  temporaries := []
  independentPatterns := [⟨1, 0⟩]
  dependentPatterns := [⟨1, 0⟩]

/-- The body of this loop. -/
def scaledBody (independents : List Nat) (_ : Nat) : Build (List Nat) :=
  match independents with
  | [indexed, fixed] => do
    let factor ← Build.operation .exponential [fixed]
    let product ← Build.operation .multiply [indexed, factor]
    pure [product]
  | _ => throw .emptyActiveIterations

theorem isOrdinaryBody_scaledBody (outer : OperationGraph) :
    IsOrdinaryBody outer scaledBody := by
  intro graph independents indexOperation _ present _
  have adds : Build.Adds (scaledBody independents indexOperation) graph
      fun _ _ => True := by
    unfold scaledBody
    split
    · next indexed fixed =>
      refine (operation_adds rfl ?_).bind ?_
      · intro id member
        exact present id (List.mem_cons_of_mem indexed member)
      intro factor second toSecond made
      refine (operation_adds rfl ?_).bind fun _ third _ _ =>
        ⟨.refl third, trivial⟩
      intro id member
      rcases List.mem_pair.mp member with equal | equal
      · rw [equal]
        exact toSecond.extendsTo.lt_size (present indexed List.mem_cons_self)
      · rw [equal]
        exact made
    · exact .refl graph
  exact adds.addsOrdinary

/-- An independent variable, and a loop that uses it. -/
def scaledCalls : List Call :=
  [.independent 5, .insertLoop scaledModel "it" [0] [] scaledBody]

/-- The loop start refers to the exponential, which was made after it. -/
theorem scaledCalls_wellFormed :
    ({} : OperationGraph).AreAdmissible scaledCalls ∧
      ((({} : OperationGraph).performAll scaledCalls).node? 3).map
        (·.arguments) = some [.node 1, .node 5] ∧
      (({} : OperationGraph).performAll scaledCalls).WellFormed ∧
      (({} : OperationGraph).performAll [.independent 5]).ExtendsTo
        (({} : OperationGraph).performAll scaledCalls) := by
  have admissible : ({} : OperationGraph).AreAdmissible scaledCalls := by
    refine ⟨trivial, ⟨?_, ?_, isOrdinaryBody_scaledBody _⟩, trivial⟩
    · show ∀ id ∈ [0], id < 1
      decide
    · show ∀ id ∈ [], id < 1
      decide
  rcases construction_wellFormed admissible with ⟨_, wellFormed, extension⟩
  refine ⟨admissible, by decide +kernel, wellFormed ?_, extension _ _ rfl⟩
  intro kind operands member
  simp [scaledCalls] at member

/-- A loop start and a loop end made as plain operations. -/
def bareLoopCalls : List Call :=
  [.declareIndex "it", .operation .loopStart [0], .operation .loopEnd []]

theorem bareLoop_not_wellFormed :
    ({} : OperationGraph).AreAdmissible bareLoopCalls ∧
      ¬ (({} : OperationGraph).performAll bareLoopCalls).WellFormed := by
  constructor
  · refine ⟨trivial, ?_, ?_, trivial⟩
    · show ∀ id ∈ [0], id < 1
      decide
    · show ∀ id ∈ [], id < 2
      decide
  · intro wellFormed
    rcases (wellFormed.fits 2 _ rfl id).loopStart rfl with
      ⟨start, _, listed, _⟩
    cases listed

end OperationGraph

end SparseLoop
