import SparseLoop.Branch.Condition
import SparseLoop.Proofs.Branch.Skeleton
import SparseLoop.Proofs.Operation.Building
import SparseLoop.Proofs.Range.Compression

/-!
# Chains of conditions

The nodes of the branches of a skeleton form a chain.  The first one opens the
construct, each later one follows the node before it, and each has a condition
on the index.

A condition is loosened over the iterations of all branches before it, so it
may hold at iterations that its own branch does not have.  Only the whole chain
selects a branch: `findIdx?_conditionNodes` says that the first condition that
holds at an iteration is that of the first branch that has the iteration.
-/

namespace SparseLoop

open OperationGraph OperationGraph.Build

variable {graph later : OperationGraph}

/-- Whether the ranges of a condition hold at an iteration. -/
def OperationNode.admits (condition : OperationNode) (iteration : Nat) :
    Bool :=
  IterationRange.covers (IterationRange.ofBounds condition.info) iteration

/-- The condition on an index operation that guards active iterations, where
spare ones do not matter. -/
def OperationNode.conditionOn (active spare : IndexSet)
    (lastIteration indexOperation : Nat) : OperationNode where
  kind := .indexCondition
  info := IterationRange.bounds
    (IterationRange.cover active spare lastIteration)
  arguments := [.node indexOperation]

/-- The node that opens a branch: the first of its chain, or one that follows
the branch before it. -/
def OperationNode.ofBranch (previous : Option Nat) (condition : Nat) :
    OperationNode :=
  match previous with
  | none => { kind := .startIf, info := [], arguments := [.node condition] }
  | some earlier =>
    { kind := .elseIf, info := [],
      arguments := [.node earlier, .node condition] }

/-- The conditions of branches in order, after branches that took the spare
iterations. -/
def conditionNodes (lastIteration indexOperation : Nat) :
    IndexSet → List IndexSet → List OperationNode
  | _, [] => []
  | spare, iterations :: rest =>
    .conditionOn iterations spare lastIteration indexOperation ::
      conditionNodes lastIteration indexOperation (spare.union iterations) rest

/-- Branch nodes that follow one another in a graph, with the conditions to
which they refer. -/
inductive OperationGraph.Chain (graph : OperationGraph) :
    Option Nat → List Nat → List OperationNode → Prop
  | nil (previous : Option Nat) : Chain graph previous [] []
  | cons {previous : Option Nat} {node condition : Nat}
      {guard : OperationNode} {rest : List Nat}
      {guards : List OperationNode}
      (opens : graph.node? node = some (.ofBranch previous condition))
      (guarded : graph.node? condition = some guard)
      (follows : Chain graph (some node) rest guards) :
      Chain graph previous (node :: rest) (guard :: guards)

/-- A chain stays in a graph that grows. -/
theorem OperationGraph.Chain.extend {previous : Option Nat} {nodes : List Nat}
    {guards : List OperationNode} (chain : graph.Chain previous nodes guards)
    (extension : graph.ExtendsTo later) :
    later.Chain previous nodes guards := by
  induction chain with
  | nil previous => exact .nil previous
  | cons opens guarded _ ih =>
    exact .cons (extension.nodes _ _ opens) (extension.nodes _ _ guarded) ih

/-! ## Selection -/

variable {lastIteration indexOperation iteration : Nat}

theorem mem_conditionNodes {spare : IndexSet} {sets : List IndexSet}
    {condition : OperationNode}
    (member : condition ∈
      conditionNodes lastIteration indexOperation spare sets) :
    condition.kind = .indexCondition ∧
      condition.arguments = [.node indexOperation] := by
  induction sets generalizing spare with
  | nil => cases member
  | cons iterations rest ih =>
    rcases List.mem_cons.mp member with equal | among
    · rw [equal]
      exact ⟨rfl, rfl⟩
    · exact ih among

/-- At an iteration that no earlier branch took, a condition holds exactly if
its branch has the iteration. -/
theorem admits_conditionOn {active spare : IndexSet}
    (reached : iteration ≤ lastIteration)
    (representable : iteration ≤ IterationRange.unbounded)
    (untaken : iteration ∉ spare) :
    (OperationNode.conditionOn active spare lastIteration
      indexOperation).admits iteration = active.contains iteration := by
  rw [Bool.eq_iff_iff, IndexSet.contains_iff, OperationNode.admits,
    OperationNode.conditionOn, IterationRange.ofBounds_bounds]
  exact IterationRange.covers_cover_iff reached representable
    fun taken => absurd taken untaken

/-- The first condition that holds at an iteration is that of the first branch
that has the iteration. -/
theorem findIdx?_conditionNodes {spare : IndexSet} (sets : List IndexSet)
    (reached : iteration ≤ lastIteration)
    (representable : iteration ≤ IterationRange.unbounded)
    (untaken : iteration ∉ spare) :
    (conditionNodes lastIteration indexOperation spare sets).findIdx?
        (·.admits iteration) =
      sets.findIdx? (·.contains iteration) := by
  induction sets generalizing spare with
  | nil => rfl
  | cons iterations rest ih =>
    rw [conditionNodes, List.findIdx?_cons, List.findIdx?_cons,
      admits_conditionOn reached representable untaken]
    split
    · rfl
    · next absent =>
      -- the branch does not have the iteration, so it does not take it
      have still : iteration ∉ spare.union iterations := by
        rw [IndexSet.mem_union]
        rintro (taken | member)
        · exact untaken taken
        · exact absent (IndexSet.contains_iff.mpr member)
      rw [ih still]

/-! ## Creation -/

theorem addCondition_adds (active spare : IndexSet)
    (lastIteration indexOperation : Nat) (graph : OperationGraph) :
    Adds (addCondition active spare lastIteration indexOperation) graph
      (fun id later => later.node? id =
        some (.conditionOn active spare lastIteration indexOperation)) := by
  rw [addCondition]
  refine (read_adds _ _).bind ?_
  rintro ranges _ _ ⟨compressed, rfl⟩
  refine (read_adds _ _).bind ?_
  rintro node _ _ ⟨looked, rfl⟩
  rw [← (IterationRange.compress_eq_ok_iff.mp compressed).2]
  apply append_adds rfl
  show ∀ child ∈ [indexOperation], child < _
  simpa using lt_size_of_node? (node_eq_ok.mp looked)

theorem openBranch_adds {previous : Option Nat} {condition : Nat}
    (after : ∀ earlier, previous = some earlier → earlier < graph.size)
    (present : condition < graph.size) :
    Adds (openBranch previous condition) graph
      (fun id later =>
        later.node? id = some (.ofBranch previous condition)) := by
  cases previous with
  | none =>
    apply append_adds rfl
    show ∀ child ∈ [condition], child < graph.size
    simpa using present
  | some earlier =>
    apply append_adds rfl
    show ∀ child ∈ [earlier, condition], child < graph.size
    simpa using And.intro (after earlier rfl) present

theorem addCondition_eq_ok {active spare : IndexSet}
    (inhabited : ∃ iteration, iteration ∈ active)
    (present : indexOperation < graph.size) :
    addCondition active spare lastIteration indexOperation graph =
      .ok graph.size (graph.addNode
        (.conditionOn active spare lastIteration indexOperation)) := by
  rcases exists_node? present with ⟨node, found⟩
  rw [addCondition, bind_apply_of_ok (read_eq_ok
    (IterationRange.compress_eq_ok_iff.mpr ⟨inhabited, rfl⟩))]
  rw [bind_apply_of_ok (read_eq_ok (node_eq_ok.mpr found))]
  rfl

theorem openBranch_eq_ok {previous : Option Nat} {condition : Nat} :
    openBranch previous condition graph =
      .ok graph.size (graph.addNode (.ofBranch previous condition)) := by
  cases previous <;> rfl

namespace Skeleton

/-- Creating the branches of a shape makes a chain of their conditions. -/
theorem createBranches_adds {spare : IndexSet} {previous : Option Nat}
    (entries : List (Nat × IndexSet))
    (after : ∀ earlier, previous = some earlier → earlier < graph.size) :
    Adds (createBranches lastIteration indexOperation spare previous entries)
      graph (fun branches later =>
        branches.map (fun entry => (entry.1, entry.2.iterations)) = entries ∧
          later.Chain previous (branches.map (·.2.body))
            (conditionNodes lastIteration indexOperation spare
              (entries.map (·.2)))) := by
  induction entries generalizing spare previous graph with
  | nil => exact ⟨.refl graph, rfl, .nil previous⟩
  | cons entry rest ih =>
    rw [createBranches]
    refine (addCondition_adds _ _ _ _ graph).bind ?_
    intro condition second toSecond guarded
    refine (openBranch_adds ?_ (lt_size_of_node? guarded)).bind ?_
    · intro earlier given
      exact toSecond.extendsTo.lt_size (after earlier given)
    intro node third toThird opens
    refine (ih ?_).bind ?_
    · rintro earlier given
      cases given
      exact lt_size_of_node? opens
    rintro branches last toLast ⟨listed, chain⟩
    refine ⟨.refl last, ?_, ?_⟩
    · rw [List.map_cons, listed]
    · exact .cons (toLast.extendsTo.nodes _ _ opens)
        ((toThird.trans toLast).extendsTo.nodes _ _ guarded) chain

/-- Branches are created if each has an iteration and the index operation
exists. -/
theorem createBranches_eq_ok {spare : IndexSet} {previous : Option Nat}
    {entries : List (Nat × IndexSet)}
    (inhabited : ∀ entry ∈ entries, ∃ iteration, iteration ∈ entry.2)
    (present : indexOperation < graph.size) :
    ∃ branches later,
      createBranches lastIteration indexOperation spare previous entries
        graph = .ok branches later := by
  induction entries generalizing spare previous graph with
  | nil => exact ⟨[], graph, rfl⟩
  | cons entry rest ih =>
    let guarded := graph.addNode
      (.conditionOn entry.2 spare lastIteration indexOperation)
    let opened := guarded.addNode (.ofBranch previous graph.size)
    have kept : indexOperation < opened.size :=
      (extendsTo_addNode guarded _).lt_size
        ((extendsTo_addNode graph _).lt_size present)
    have tail : ∃ branches later,
        createBranches lastIteration indexOperation (spare.union entry.2)
          (some guarded.size) rest opened = .ok branches later :=
      ih (fun other member =>
        inhabited other (List.mem_cons_of_mem entry member)) kept
    rcases tail with ⟨branches, later, created⟩
    refine ⟨(entry.1, ⟨entry.2, guarded.size⟩) :: branches, later, ?_⟩
    rw [createBranches, bind_apply_of_ok (addCondition_eq_ok
      (inhabited entry List.mem_cons_self) present)]
    rw [bind_apply_of_ok openBranch_eq_ok, bind_apply_of_ok created]
    rfl

/-- In a graph, a chain of conditions on an index operation selects the branches
of a skeleton: up to a last iteration, the first condition that holds is that of
the first branch that has the iteration, and none holds if no branch has it. -/
def Selects (graph : OperationGraph) (indexOperation lastIteration : Nat)
    (skeleton : Skeleton Nat) : Prop :=
  ∃ conditions,
    graph.Chain none (skeleton.branches.values.map (·.body)) conditions ∧
    (∀ condition ∈ conditions, condition.kind = .indexCondition ∧
      condition.arguments = [.node indexOperation]) ∧
    ∀ iteration ≤ lastIteration, iteration ≤ IterationRange.unbounded →
      conditions.findIdx? (·.admits iteration) =
        skeleton.shape.values.findIdx? (·.contains iteration)

variable {skeleton : Skeleton Nat}

theorem Selects.extend
    (selects : skeleton.Selects graph indexOperation lastIteration)
    (extension : graph.ExtendsTo later) :
    skeleton.Selects later indexOperation lastIteration := by
  rcases selects with ⟨conditions, chain, onIndex, decides⟩
  exact ⟨conditions, chain.extend extension, onIndex, decides⟩

/-- The conditions made for its branches select the branches of a skeleton. -/
theorem selects_of_chain
    (chain : graph.Chain none (skeleton.branches.values.map (·.body))
      (conditionNodes lastIteration indexOperation ∅ skeleton.shape.values)) :
    skeleton.Selects graph indexOperation lastIteration :=
  ⟨_, chain, fun _ => mem_conditionNodes,
    fun iteration reached representable =>
      findIdx?_conditionNodes skeleton.shape.values reached representable
        (IndexSet.notMem_empty iteration)⟩

/-- The skeleton of branches made for a shape has this shape. -/
theorem shape_ofBranches {shape : BranchShape}
    {branches : List (Nat × Branch Nat)}
    (listed : branches.map (fun entry => (entry.1, entry.2.iterations)) =
      shape.entries) :
    ({ branches := .ofList branches } : Skeleton Nat).shape = shape ∧
      (IndexMap.ofList branches).values = branches.map (·.2) := by
  have ascending : branches.Pairwise fun left right => left.1 < right.1 := by
    have keys := List.pairwise_map.mpr shape.ascending
    rw [← listed, List.map_map] at keys
    exact List.pairwise_map.mp keys
  have stored := IndexMap.entries_ofList ascending
  constructor
  · apply IndexMap.ext
    rw [← listed]
    show (IndexMap.ofList branches).entries.map _ = _
    rw [stored]
  · rw [IndexMap.values, stored]

/-- A request for a shape only adds ordinary nodes. -/
theorem findOrCreate_adds (skeletons : List (Skeleton Nat))
    (shape : BranchShape) (indexOperation lastIteration : Nat)
    (graph : OperationGraph) :
    Adds (findOrCreate skeletons shape indexOperation lastIteration) graph
      (fun _ _ => True) := by
  rw [findOrCreate]
  cases find? skeletons shape with
  | some position => exact ⟨.refl graph, trivial⟩
  | none =>
    refine (createBranches_adds shape.entries ?_).bind
      fun _ later _ _ => ⟨.refl later, trivial⟩
    rintro earlier given
    cases given

theorem close_adds
    (bodies : ∀ branch ∈ skeleton.branches.values, branch.body < graph.size) :
    Adds (close skeleton) graph (fun _ _ => True) := by
  rw [close]
  cases skeleton.endNode with
  | some node => exact ⟨.refl graph, trivial⟩
  | none =>
    refine Adds.bind (append_adds rfl ?_)
      fun _ _ _ _ => ⟨.refl _, trivial⟩
    intro child uses
    rw [mem_argumentNodes, List.mem_map] at uses
    rcases uses with ⟨branch, member, equal⟩
    cases equal
    exact bodies branch member

end Skeleton

end SparseLoop
