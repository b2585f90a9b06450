import SparseLoop.Proofs.Operation.Building
import SparseLoop.Proofs.Operation.HoistSet

/-!
# The outcome of hoisting

Hoisting moves exactly the hoistable nodes, and changes only the start of the
loop.  A failed attempt leaves the graph as it was.

The order of the results of a loop decides in which order its body is surveyed.
The outcome does not depend on it, since the body and the nodes to hoist are
described by paths of arguments.  Only the first argument of the start has a
meaning of its own, which matters where a node is start and end of one loop.
-/

namespace SparseLoop

namespace OperationGraph

variable {graph later : OperationGraph} {start finish declaration id : Nat}

/-! ## The order of arguments -/

/-- Every node of a graph is in another one with its kind, and with its
arguments in some order. -/
def Reorders (graph later : OperationGraph) : Prop :=
  ∀ id node, graph.node? id = some node →
    ∃ other, later.node? id = some other ∧ other.kind = node.kind ∧
      other.arguments.Perm node.arguments

/-- Two graphs differ at most in the order of arguments. -/
structure SameUpToOrder (graph later : OperationGraph) : Prop where
  forth : graph.Reorders later
  back : later.Reorders graph

theorem Reorders.uses (reorders : graph.Reorders later) {parent child : Nat}
    (edge : graph.Uses parent child) : later.Uses parent child := by
  rcases edge with ⟨node, found, uses⟩
  rcases reorders parent node found with ⟨other, stored, _, same⟩
  refine ⟨other, stored, mem_argumentNodes.mpr ?_⟩
  exact same.mem_iff.mpr (mem_argumentNodes.mp uses)

theorem Reorders.lt_size (reorders : graph.Reorders later)
    (present : id < graph.size) : id < later.size := by
  rcases exists_node? present with ⟨node, found⟩
  rcases reorders id node found with ⟨other, stored, _⟩
  exact lt_size_of_node? stored

namespace SameUpToOrder

theorem symm (same : graph.SameUpToOrder later) :
    later.SameUpToOrder graph :=
  ⟨same.back, same.forth⟩

theorem uses_eq (same : graph.SameUpToOrder later) :
    later.Uses = graph.Uses := by
  funext parent child
  exact propext ⟨same.back.uses, same.forth.uses⟩

theorem reaches_eq (same : graph.SameUpToOrder later) :
    later.Reaches = graph.Reaches := by
  funext source target
  rw [Reaches, Reaches, same.uses_eq]

theorem inBody_eq (same : graph.SameUpToOrder later) :
    later.InBody = graph.InBody := by
  funext declaration finish id
  simp only [InBody, ReachesInside, same.uses_eq]

theorem acyclic (same : graph.SameUpToOrder later)
    (acyclic : graph.Acyclic) : later.Acyclic := by
  rw [Acyclic, same.uses_eq]
  exact acyclic

theorem hasBody (same : graph.SameUpToOrder later)
    (body : graph.HasBody declaration finish) :
    later.HasBody declaration finish where
  results := by
    rcases body.results with ⟨last, found, results⟩
    rcases same.forth finish last found with ⟨other, stored, _, order⟩
    refine ⟨other, stored, fun argument member => ?_⟩
    rcases results argument (order.mem_iff.mp member) with
      ⟨result, equal, present⟩
    exact ⟨result, equal, same.forth.lt_size present⟩
  arguments := by
    intro parent child inBody different edge
    rw [same.inBody_eq] at inBody
    rw [same.uses_eq] at edge
    exact same.forth.lt_size (body.arguments parent child inBody different edge)

theorem isHoistable (same : graph.SameUpToOrder later)
    (hoistable : graph.IsHoistable declaration finish id) :
    later.IsHoistable declaration finish id := by
  rcases hoistable with ⟨⟨node, found, computed⟩, away, parent, user, inBody,
    different, path, stored, uses, movable⟩
  rcases same.forth id node found with ⟨kept, keptAt, kind, _⟩
  rcases same.forth parent user stored with ⟨other, otherAt, sameKind, order⟩
  rw [IsHoistable, same.reaches_eq, same.inBody_eq]
  refine ⟨⟨kept, keptAt, kind.trans_ne computed⟩, away, parent, other, inBody,
    different, path, otherAt, ?_, sameKind ▸ movable⟩
  exact mem_argumentNodes.mpr (order.mem_iff.mpr (mem_argumentNodes.mp uses))

/-- The declaration that drives a loop stays if the first argument of its start
does. -/
theorem drives (same : graph.SameUpToOrder later)
    (first : ∀ opening other, graph.node? start = some opening →
      later.node? start = some other →
        other.arguments.head? = opening.arguments.head?)
    (drives : graph.Drives start declaration) :
    later.Drives start declaration := by
  rcases drives with ⟨opening, declared, found, opens, head, stored, kind⟩
  rcases same.forth start opening found with ⟨other, otherAt, sameKind, _⟩
  rcases same.forth declaration declared stored with
    ⟨kept, keptAt, keptKind, _⟩
  exact ⟨other, kept, otherAt, sameKind.trans opens,
    (first opening other found otherAt).trans head, keptAt,
    keptKind.trans kind⟩

end SameUpToOrder

/-- The graph with other arguments of a node. -/
def withArguments (graph : OperationGraph) (id : Nat)
    (arguments : List Argument) : OperationGraph :=
  graph.modifyNode id fun node => { node with arguments }

theorem node?_withArguments {other : Nat} {arguments : List Argument} :
    (graph.withArguments id arguments).node? other =
      if id = other then
        (graph.node? other).map fun node => { node with arguments }
      else graph.node? other :=
  Array.getElem?_modify

theorem sameUpToOrder_withArguments {last : OperationNode}
    (found : graph.node? finish = some last) {reordered : List Argument}
    (order : reordered.Perm last.arguments) :
    graph.SameUpToOrder (graph.withArguments finish reordered) where
  forth id node stored := by
    rw [node?_withArguments, stored]
    by_cases equal : finish = id
    · subst equal
      cases found.symm.trans stored
      rw [if_pos rfl]
      exact ⟨_, rfl, rfl, order⟩
    · rw [if_neg equal]
      exact ⟨node, rfl, rfl, .refl _⟩
  back id node stored := by
    rw [node?_withArguments] at stored
    by_cases equal : finish = id
    · subst equal
      rw [if_pos rfl, found] at stored
      cases stored
      exact ⟨last, found, rfl, order.symm⟩
    · rw [if_neg equal] at stored
      exact ⟨node, stored, rfl, .refl _⟩

/-! ## Hoisting -/

/-- What hoisting changes: the start of a loop gets the hoisted nodes, in
ascending order, as its last arguments. -/
structure Moves (graph moved : OperationGraph) (start : Nat)
    (hoisted : List Nat) : Prop where
  ascending : hoisted.Pairwise (· < ·)
  opening : ∃ opening, graph.node? start = some opening ∧
    moved.node? start = some
      { opening with arguments := opening.arguments ++ hoisted.map .node }
  others : ∀ id, id ≠ start → moved.node? id = graph.node? id
  independentPatterns : moved.independentPatterns = graph.independentPatterns
  dependentPatterns : moved.dependentPatterns = graph.dependentPatterns

/-- Hoisting passes to the start of a loop what a survey found hoistable, and
changes nothing if the survey failed. -/
theorem hoist_ends (graph : OperationGraph) (start finish : Nat) :
    Ends
      (fun hoisted moved => ∃ survey,
        graph.surveyLoop start finish {} = .ok () survey ∧
          hoisted = survey.hoistable.toList ∧
            moved = graph.passToLoop start hoisted)
      (fun _ later => later = graph ∧
        ∀ survey, graph.surveyLoop start finish {} ≠ .ok () survey)
      (Build.hoist start finish graph) := by
  cases surveyed : graph.surveyLoop start finish {} with
  | ok value survey =>
    have looked : (graph.hoist ∅ start finish).1 =
        .ok (survey.hoistable.toList,
          graph.passToLoop start survey.hoistable.toList) := by
      rw [hoist, EStateM.run, surveyed]
    have opens : Build.read (fun graph => (graph.hoist ∅ start finish).1)
        graph = .ok (survey.hoistable.toList,
          graph.passToLoop start survey.hoistable.toList) graph :=
      Build.read_eq_ok looked
    rw [Build.hoist, bind_apply_of_ok opens]
    exact ⟨survey, rfl, rfl, rfl⟩
  | error failure survey =>
    have looked : (graph.hoist ∅ start finish).1 = .error failure := by
      rw [hoist, EStateM.run, surveyed]
    have stops : Build.hoist start finish graph = .error failure graph := by
      show EStateM.bind (Build.read _) _ graph = _
      rw [EStateM.bind, Build.read, get_bind_apply, looked]
      rfl
    rw [stops]
    exact ⟨rfl, fun _ absurdly => by cases absurdly⟩

/-- Hoisting is possible exactly if the loop has an index declaration and a
body. -/
theorem exists_hoist_iff (acyclic : graph.Acyclic) :
    (∃ hoisted moved, Build.hoist start finish graph = .ok hoisted moved) ↔
      ∃ declaration, graph.Drives start declaration ∧
        graph.HasBody declaration finish := by
  rw [← exists_surveyLoop_iff acyclic]
  have ends := hoist_ends graph start finish
  constructor
  · rintro ⟨hoisted, moved, succeeds⟩
    rw [succeeds] at ends
    rcases ends with ⟨survey, surveyed, _⟩
    exact ⟨survey, surveyed⟩
  · rintro ⟨survey, surveyed⟩
    cases outcome : Build.hoist start finish graph with
    | ok hoisted moved => exact ⟨hoisted, moved, rfl⟩
    | error failure after =>
      rw [outcome] at ends
      exact absurd surveyed (ends.2 survey)

/-- Hoisting moves exactly the hoistable nodes. -/
theorem moves_of_hoist {hoisted : List Nat} {moved : OperationGraph}
    (succeeds : Build.hoist start finish graph = .ok hoisted moved) :
    graph.Moves moved start hoisted ∧
      ∃ declaration, graph.Drives start declaration ∧
        ∀ id, id ∈ hoisted ↔ graph.IsHoistable declaration finish id := by
  have ends := hoist_ends graph start finish
  rw [succeeds] at ends
  rcases ends with ⟨survey, surveyed, rfl, rfl⟩
  rcases surveyLoop_eq_ok_iff.mp surveyed with ⟨declaration, _, drives, _⟩
  refine ⟨⟨survey.hoistable.ascending, ?_, ?_, rfl, rfl⟩, declaration, drives,
    fun id => mem_hoistable_iff drives surveyed⟩
  · rcases drives with ⟨opening, _, found, _⟩
    refine ⟨opening, found, ?_⟩
    rw [node?_passToLoop, if_pos rfl, found, Option.map_some]
  · intro id different
    rw [node?_passToLoop, if_neg different.symm]

/-- What is hoisted does not depend on the order of arguments, apart from the
first argument of the start. -/
theorem SameUpToOrder.exists_hoist (same : graph.SameUpToOrder later)
    (acyclic : graph.Acyclic)
    (first : ∀ opening other, graph.node? start = some opening →
      later.node? start = some other →
        other.arguments.head? = opening.arguments.head?)
    {hoisted : List Nat} {moved : OperationGraph}
    (succeeds : Build.hoist start finish graph = .ok hoisted moved) :
    ∃ other, Build.hoist start finish later = .ok hoisted other ∧
      later.Moves other start hoisted := by
  rcases (exists_hoist_iff acyclic).mp ⟨hoisted, moved, succeeds⟩ with
    ⟨declaration, drives, body⟩
  have keptDrives := same.drives first drives
  rcases (exists_hoist_iff (same.acyclic acyclic)).mpr
    ⟨declaration, keptDrives, same.hasBody body⟩ with
    ⟨again, other, succeedsAgain⟩
  rcases moves_of_hoist succeeds with ⟨moves, one, oneDrives, described⟩
  rcases moves_of_hoist succeedsAgain with
    ⟨movesAgain, two, twoDrives, describedAgain⟩
  cases drives.unique oneDrives
  cases keptDrives.unique twoDrives
  have equal : again = hoisted := by
    refine IndexSet.eq_of_ascending_of_mem_iff movesAgain.ascending
      moves.ascending fun id => ?_
    rw [described, describedAgain]
    exact ⟨same.symm.isHoistable, same.isHoistable⟩
  subst equal
  exact ⟨other, succeedsAgain, movesAgain⟩

/--
In an acyclic graph hoisting succeeds exactly if the loop has an index
declaration and a body.  Then it moves exactly the hoistable nodes, whatever the
order of the results.  Otherwise it leaves the graph as it was.
-/
theorem hoist_moves_exactly (acyclic : graph.Acyclic) (start finish : Nat) :
    ((∃ hoisted moved, Build.hoist start finish graph = .ok hoisted moved) ↔
      ∃ declaration, graph.Drives start declaration ∧
        graph.HasBody declaration finish) ∧
    (∀ failure later, Build.hoist start finish graph = .error failure later →
      later = graph) ∧
    ∀ hoisted moved, Build.hoist start finish graph = .ok hoisted moved →
      graph.Moves moved start hoisted ∧
      (∃ declaration, graph.Drives start declaration ∧
        ∀ id, id ∈ hoisted ↔ graph.IsHoistable declaration finish id) ∧
      ∀ last reordered, graph.node? finish = some last →
        reordered.Perm last.arguments →
          (start = finish → reordered.head? = last.arguments.head?) →
            ∃ other,
              Build.hoist start finish
                (graph.withArguments finish reordered) = .ok hoisted other ∧
              (graph.withArguments finish reordered).Moves other start
                hoisted := by
  refine ⟨exists_hoist_iff acyclic, ?_, ?_⟩
  · intro failure later fails
    have ends := hoist_ends graph start finish
    rw [fails] at ends
    exact ends.1
  · intro hoisted moved succeeds
    rcases moves_of_hoist succeeds with ⟨moves, described⟩
    refine ⟨moves, described, fun last reordered found order first => ?_⟩
    refine (sameUpToOrder_withArguments found order).exists_hoist acyclic ?_
      succeeds
    intro opening other opened stored
    rw [node?_withArguments, opened] at stored
    split at stored
    · next equal =>
      subst equal
      cases found.symm.trans opened
      cases stored
      exact first rfl
    · cases stored
      rfl

/-- The loop of `a[x, sin y, y] * cos y + sin y`, whose element is a result too.
The sine is the node 4 and the cosine is the node 6. -/
def sharedLoop : OperationGraph where
  nodes := #[
    { kind := .indexDeclaration, info := [], arguments := [],
      name := some "it" },
    { kind := .index, info := [], arguments := [.node 0] },
    { kind := .loopIndexedIndependent, info := [0, 0],
      arguments := [.node 1] },
    { kind := .independent, info := [10], arguments := [] },
    { kind := .sine, info := [], arguments := [.node 3] },
    { kind := .arrayElement, info := [],
      arguments := [.node 2, .node 4, .node 3] },
    { kind := .cosine, info := [], arguments := [.node 3] },
    { kind := .multiply, info := [], arguments := [.node 5, .node 6] },
    { kind := .add, info := [], arguments := [.node 7, .node 4] },
    { kind := .loopStart, info := [6], arguments := [.node 0] },
    { kind := .loopEnd, info := [9], arguments := [.node 8, .node 5] }]
  independentPatterns := #[(0, { slope := 2, offset := 1 })]

/-- The element keeps the sine in the loop, but the sum releases it.  Either
order of the results gives the same. -/
theorem hoist_moves_shared :
    sharedLoop.Acyclic ∧ sharedLoop.HasBody 0 10 ∧
    (∀ id, id ∈ [4, 6] ↔ sharedLoop.IsHoistable 0 10 id) ∧
    (∃ moved, Build.hoist 9 10 sharedLoop = .ok [4, 6] moved ∧
      sharedLoop.Moves moved 9 [4, 6]) ∧
    ∃ other, Build.hoist 9 10
        (sharedLoop.withArguments 10 [.node 5, .node 8]) =
          .ok [4, 6] other ∧
      other.node? 9 = some
        { kind := .loopStart, info := [6],
          arguments := [.node 0, .node 4, .node 6] } := by
  have acyclic : sharedLoop.Acyclic := acyclic_of_earlier (by decide)
  have succeeds : Build.hoist 9 10 sharedLoop =
      .ok [4, 6] (sharedLoop.passToLoop 9 [4, 6]) := rfl
  have driven : sharedLoop.Drives 9 0 := ⟨_, _, rfl, rfl, rfl, rfl, rfl⟩
  rcases hoist_moves_exactly acyclic 9 10 with ⟨possible, _, outcome⟩
  rcases possible.mp ⟨_, _, succeeds⟩ with ⟨declaration, drives, body⟩
  cases driven.unique drives
  rcases outcome _ _ succeeds with ⟨moves, ⟨other, drives, described⟩, order⟩
  cases driven.unique drives
  rcases order _ [.node 5, .node 8] rfl (.swap _ _ _)
    (fun equal => absurd equal (by decide)) with ⟨moved, again, movesAgain⟩
  refine ⟨acyclic, body, described, ⟨_, succeeds, moves⟩, moved, again, ?_⟩
  rcases movesAgain.opening with ⟨opening, found, stored⟩
  cases found
  exact stored

/-- An index declaration with an argument that is not there, in the body of its
loop. -/
def danglingDeclaration : OperationGraph where
  nodes := #[
    { kind := .indexDeclaration, info := [], arguments := [.node 9],
      name := some "it" },
    { kind := .index, info := [], arguments := [.node 0] },
    { kind := .loopStart, info := [6], arguments := [.node 0] },
    { kind := .loopEnd, info := [2], arguments := [.node 1] }]

/-- A node that starts a loop and is taken for its end too, with two index
declarations. -/
def selfEndedLoop : OperationGraph where
  nodes := #[
    { kind := .indexDeclaration, info := [], arguments := [],
      name := some "it" },
    { kind := .indexDeclaration, info := [], arguments := [],
      name := some "j" },
    { kind := .add, info := [], arguments := [.node 0, .node 1] },
    { kind := .loopStart, info := [6],
      arguments := [.node 0, .node 1, .node 2] }]

/-- The arguments of a declaration are not looked at, so one that is missing
hinders nothing.  If a loop ends at its start, the order of its results decides
which declaration drives it. -/
theorem hoist_at_degenerate_loops :
    (danglingDeclaration.Acyclic ∧
      (∃ moved, Build.hoist 2 3 danglingDeclaration = .ok [] moved) ∧
      danglingDeclaration.Drives 2 0 ∧
      ¬ ∀ parent child, danglingDeclaration.InBody 0 3 parent →
        danglingDeclaration.Uses parent child →
          child < danglingDeclaration.size) ∧
    selfEndedLoop.Acyclic ∧
    (∃ last, selfEndedLoop.node? 3 = some last ∧
      [.node 1, .node 0, .node 2].Perm last.arguments) ∧
    (∃ moved, Build.hoist 3 3 selfEndedLoop = .ok [1] moved) ∧
    ∃ moved, Build.hoist 3 3
      (selfEndedLoop.withArguments 3 [.node 1, .node 0, .node 2]) =
        .ok [0] moved := by
  refine ⟨⟨?_, ⟨_, rfl⟩, ⟨_, _, rfl, rfl, rfl, rfl, rfl⟩, ?_⟩,
    acyclic_of_earlier (by decide), ⟨_, rfl, .swap _ _ _⟩, ⟨_, rfl⟩, ⟨_, rfl⟩⟩
  · let rank : Nat → Nat := fun id => [1, 2, 2, 3].getD id 0
    exact acyclic_of_rank rank (by decide)
  · intro present
    have path : danglingDeclaration.InBody 0 3 0 :=
      ⟨1, ⟨_, rfl, by decide⟩, .single ⟨by decide, _, rfl, by decide⟩⟩
    exact absurd (present 0 9 path ⟨_, rfl, by decide⟩) (by decide)

end OperationGraph

end SparseLoop
