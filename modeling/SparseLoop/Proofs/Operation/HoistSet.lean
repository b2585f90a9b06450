import SparseLoop.Proofs.Operation.Collection
import SparseLoop.Proofs.Operation.WellFormed
import SparseLoop.Proofs.Operation.Marks

/-!
# The nodes that are hoisted

The body of a loop consists of the nodes that its results need, where the index
declaration is not followed further.  A survey of the loop succeeds exactly if
the loop has an index declaration, its results are nodes, and all arguments in
the body are there.  The nodes that it then finds hoistable are described
without a survey, by paths of arguments alone: they are the invariant arguments
of indexed nodes of the body.

Neither description mentions the way in which the survey went through the body,
so the order of arguments plays no role in it.
-/

namespace SparseLoop

namespace OperationGraph

open Survey (Faithful Exact)

variable {graph later : OperationGraph}
  {start finish declaration id : Nat} {last : OperationNode}

/-! ## Descriptions -/

/-- A node is needed for the results of a loop. -/
def InBody (graph : OperationGraph) (declaration finish id : Nat) : Prop :=
  ∃ result, graph.Uses finish result ∧
    graph.ReachesInside declaration result id

/-- All arguments of a loop end are nodes, and the nodes of the body have their
arguments in the graph.  Those of the declaration do not matter. -/
structure HasBody (graph : OperationGraph) (declaration finish : Nat) :
    Prop where
  results : ∃ last, graph.node? finish = some last ∧
    ∀ argument ∈ last.arguments, ∃ result, argument = .node result ∧
      result < graph.size
  arguments : ∀ parent child, graph.InBody declaration finish parent →
    parent ≠ declaration → graph.Uses parent child → child < graph.size

/-- A node other than an independent variable does not depend on the index, but
is an argument of a node of the body that does.  This is not the declaration
itself, and none that runs with its arguments in every iteration. -/
def IsHoistable (graph : OperationGraph) (declaration finish id : Nat) :
    Prop :=
  (∃ node, graph.node? id = some node ∧ node.kind ≠ .independent) ∧
    ¬ graph.Reaches id declaration ∧
      ∃ parent user, graph.InBody declaration finish parent ∧
        parent ≠ declaration ∧ graph.Reaches parent declaration ∧
          graph.node? parent = some user ∧ id ∈ user.argumentNodes ∧
            user.kind ≠ .arrayElement ∧ user.kind ≠ .atomicForward ∧
              user.kind ≠ .atomicReverse

theorem runsEveryIteration_eq_false {kind : OperationKind} :
    kind.runsEveryIteration = false ↔
      kind ≠ .arrayElement ∧ kind ≠ .atomicForward ∧
        kind ≠ .atomicReverse := by
  cases kind <;> decide

theorem isComputed_eq_true :
    graph.isComputed id = true ↔
      ∃ node, graph.node? id = some node ∧ node.kind ≠ .independent := by
  cases found : graph.node? id <;> simp [isComputed, found]

/-- The body of a loop contains the arguments of its nodes. -/
theorem isClosed_inBody (graph : OperationGraph) (declaration finish : Nat) :
    graph.IsClosed declaration (graph.InBody declaration finish) := by
  rintro parent child ⟨result, uses, path⟩ different edge
  exact ⟨result, uses, path.tail ⟨different, edge⟩⟩

/-- A loop has a body if and only if its results resolve. -/
theorem hasBody_iff :
    graph.HasBody declaration finish ↔
      ∃ last, graph.node? finish = some last ∧
        ∀ argument ∈ last.arguments, ∃ result, argument = .node result ∧
          graph.Resolves declaration result := by
  constructor
  · rintro ⟨⟨last, found, results⟩, arguments⟩
    refine ⟨last, found, fun argument member => ?_⟩
    rcases results argument member with ⟨result, rfl, present⟩
    refine ⟨result, rfl, present, fun parent path different child edge => ?_⟩
    have uses : graph.Uses finish result :=
      ⟨last, found, mem_argumentNodes.mpr member⟩
    exact arguments parent child ⟨result, uses, path⟩ different edge
  · rintro ⟨last, found, resolve⟩
    refine ⟨⟨last, found, fun argument member => ?_⟩, ?_⟩
    · rcases resolve argument member with ⟨result, equal, resolves⟩
      exact ⟨result, equal, resolves.present⟩
    · rintro parent child ⟨result, ⟨other, stored, uses⟩, path⟩ different edge
      cases found.symm.trans stored
      rcases resolve _ (mem_argumentNodes.mp uses) with
        ⟨_, equal, resolves⟩
      cases equal
      exact resolves.arguments parent path different child edge

/-! ## Success -/

/-- The results of a loop are surveyed if all of them resolve. -/
theorem exists_surveyResults (acyclic : graph.Acyclic)
    (declares : ∃ node, graph.node? declaration = some node ∧
      node.kind = .indexDeclaration)
    {before : Survey} (faithful : before.marksOnly.Faithful graph declaration)
    {positions : List Nat}
    (resolve : ∀ position ∈ positions, ∃ result,
      graph.argumentNode finish position = .ok (some result) ∧
        graph.Resolves declaration result) :
    ∃ after, graph.surveyResults declaration finish positions before =
      .ok () after := by
  induction positions generalizing before with
  | nil => exact ⟨before, rfl⟩
  | cons position rest ih =>
    rcases resolve position List.mem_cons_self with
      ⟨result, resolved, resolves⟩
    have ends := acyclic.survey_examines declares result before faithful
    cases outcome : graph.survey declaration result before with
    | error failure after =>
      rw [outcome] at ends
      exact absurd resolves ends.2.2
    | ok dependence middle =>
      rw [outcome] at ends
      rcases ih ends.1.faithful
        (fun other member => resolve other (List.mem_cons_of_mem _ member))
        with ⟨after, later⟩
      refine ⟨after, ?_⟩
      rw [surveyResults, resolved, ofExcept_bind_apply]
      exact (bind_apply_of_ok outcome).trans later

/-- A survey of all results of a loop is faithful and marks every one of
them. -/
theorem surveyResults_marks
    (declares : ∃ node, graph.node? declaration = some node ∧
      node.kind = .indexDeclaration)
    (found : graph.node? finish = some last) {survey : Survey}
    (walked : graph.surveyResults declaration finish
      (List.range last.arguments.length) {} = .ok () survey) :
    survey.Faithful graph declaration ∧
      ∀ argument ∈ last.arguments, ∃ result, argument = .node result ∧
        ∃ mark, survey.dependence? result = some mark := by
  rcases surveyResults_grows declares Survey.faithful_empty walked with
    ⟨grown, results⟩
  refine ⟨grown.faithful, fun argument member => ?_⟩
  rcases List.mem_iff_getElem?.mp member with ⟨position, stored⟩
  have inside : position < last.arguments.length :=
    (List.getElem?_eq_some_iff.mp stored).1
  rcases results position (List.mem_range.mpr inside) with
    ⟨result, resolved, marked⟩
  rcases (argumentNode_eq_some_iff found).mp resolved with ⟨same, _⟩
  cases stored.symm.trans same
  exact ⟨result, rfl, marked⟩

/-- A loop is surveyed exactly if it has an index declaration and a body. -/
theorem exists_surveyLoop_iff (acyclic : graph.Acyclic) :
    (∃ survey, graph.surveyLoop start finish {} = .ok () survey) ↔
      ∃ declaration, graph.Drives start declaration ∧
        graph.HasBody declaration finish := by
  constructor
  · rintro ⟨survey, surveyed⟩
    rcases surveyLoop_eq_ok_iff.mp surveyed with
      ⟨declaration, last, drives, found, walked⟩
    rcases surveyResults_marks drives.declares found walked with
      ⟨faithful, results⟩
    refine ⟨declaration, drives, hasBody_iff.mpr ⟨last, found, ?_⟩⟩
    intro argument member
    rcases results argument member with ⟨result, rfl, marked⟩
    rcases drives.declares with ⟨declared, present, _⟩
    exact ⟨result, rfl,
      faithful.resolves (lt_size_of_node? present) marked⟩
  · rintro ⟨declaration, drives, body⟩
    rcases hasBody_iff.mp body with ⟨last, found, resolve⟩
    have resolved : ∀ position ∈ List.range last.arguments.length,
        ∃ result, graph.argumentNode finish position = .ok (some result) ∧
          graph.Resolves declaration result := by
      intro position member
      have stored :=
        List.getElem?_eq_getElem (List.mem_range.mp member)
      rcases resolve _ (List.mem_of_getElem? stored) with
        ⟨result, equal, resolves⟩
      exact ⟨result, (argumentNode_eq_some_iff found).mpr
        ⟨stored.trans (congrArg some equal), resolves.present⟩, resolves⟩
    have unmarked : (Survey.marksOnly {}).Faithful graph declaration :=
      Survey.faithful_empty
    rcases exists_surveyResults acyclic drives.declares unmarked resolved
      with ⟨survey, walked⟩
    exact ⟨survey, surveyLoop_eq_ok_iff.mpr
      ⟨declaration, last, drives, found, walked⟩⟩

/-! ## Findings -/

theorem surveyResults_exact
    (declares : ∃ node, graph.node? declaration = some node ∧
      node.kind = .indexDeclaration)
    (found : graph.node? finish = some last) {before after : Survey}
    (exact : before.Exact graph declaration
      (graph.InBody declaration finish))
    {positions : List Nat}
    (surveyed : graph.surveyResults declaration finish positions before =
      .ok () after) :
    after.Exact graph declaration (graph.InBody declaration finish) := by
  induction positions generalizing before with
  | nil =>
    rcases Survey.pure_eq_ok.mp surveyed with ⟨_, rfl⟩
    exact exact
  | cons position rest ih =>
    rw [surveyResults, Survey.bind_eq_ok] at surveyed
    rcases surveyed with ⟨target, middle, looked, surveyed⟩
    rcases Survey.ofExcept_eq_ok.mp looked with ⟨resolved, rfl⟩
    cases target with
    | none => cases surveyed
    | some result =>
      rcases Survey.bind_eq_ok.mp surveyed with
        ⟨dependence, middle, first, later⟩
      rcases (argumentNode_eq_some_iff found).mp resolved with ⟨stored, _⟩
      have uses : graph.Uses finish result :=
        ⟨last, found, mem_argumentNodes.mpr (List.mem_of_getElem? stored)⟩
      exact ih (surveyWithin_exact declares
        (isClosed_inBody graph declaration finish) ⟨result, uses, .refl⟩
        exact first) later

/-- A survey that succeeds finds exactly the nodes that are hoistable. -/
theorem mem_hoistable_iff {survey : Survey}
    (drives : graph.Drives start declaration)
    (surveyed : graph.surveyLoop start finish {} = .ok () survey) :
    id ∈ survey.hoistable ↔ graph.IsHoistable declaration finish id := by
  rcases surveyLoop_eq_ok_iff.mp surveyed with
    ⟨other, last, othersDrive, found, walked⟩
  cases drives.unique othersDrive
  rcases surveyResults_marks drives.declares found walked with
    ⟨faithful, results⟩
  have exact := surveyResults_exact drives.declares found
    Survey.exact_empty walked
  -- the marked nodes are those of the body
  have marked : ∀ parent, graph.InBody declaration finish parent →
      ∃ mark, survey.dependence? parent = some mark := by
    rintro parent ⟨result, ⟨node, stored, uses⟩, path⟩
    cases found.symm.trans stored
    rcases results _ (mem_argumentNodes.mp uses) with ⟨_, equal, known⟩
    cases equal
    exact faithful.marked_of_reachesInside known path
  rw [exact.collects id]
  constructor
  · rintro ⟨invariant, parent, different, indexed, user, stored, movable,
      uses, computed⟩
    refine ⟨isComputed_eq_true.mp computed, ?_, parent, user,
      exact.within parent _ indexed, different,
      (faithful.marks parent _ indexed).mp rfl, stored, uses,
      runsEveryIteration_eq_false.mp movable⟩
    intro path
    cases (faithful.marks id _ invariant).mpr path
  · rintro ⟨computed, away, parent, user, inBody, different, path, stored,
      uses, movable⟩
    rcases marked parent inBody with ⟨mark, known⟩
    cases (faithful.marks parent mark known).mpr path
    rcases marked id (isClosed_inBody graph declaration finish parent id inBody
      different ⟨user, stored, uses⟩) with ⟨other, seen⟩
    have invariant : other = .invariant := by
      cases other with
      | invariant => rfl
      | indexed => exact absurd ((faithful.marks id _ seen).mp rfl) away
    subst invariant
    exact ⟨seen, parent, different, known, user, stored,
      runsEveryIteration_eq_false.mpr movable, uses,
      isComputed_eq_true.mpr computed⟩

end OperationGraph

end SparseLoop
