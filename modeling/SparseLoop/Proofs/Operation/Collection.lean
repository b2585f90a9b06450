import SparseLoop.Proofs.Operation.Survey
import SparseLoop.Proofs.Outcome

/-!
# What a survey collects

A survey decides about an argument where it meets it: when it concludes about a
node, it collects the invariant arguments of this node, and it concludes about
each node once.  Nothing is missed by that, although a node may be an argument of
many others, since the decision belongs to the pair of the two nodes and not to
the argument.

A survey is exact in a part of the graph if it marked no node outside the part,
and if it collected those arguments that some marked node releases.  This is an
invariant of every step, for each part that contains the arguments of its nodes.
-/

namespace SparseLoop

open OperationGraph

namespace OperationGraph

/-- A node has an argument that computes something, and need not run with it in
every iteration. -/
def Releases (graph : OperationGraph) (parent child : Nat) : Prop :=
  ∃ node, graph.node? parent = some node ∧
    node.kind.runsEveryIteration = false ∧ child ∈ node.argumentNodes ∧
      graph.isComputed child = true

theorem Releases.uses {graph : OperationGraph} {parent child : Nat}
    (releases : graph.Releases parent child) : graph.Uses parent child := by
  rcases releases with ⟨node, found, _, uses, _⟩
  exact ⟨node, found, uses⟩

/-- A part of a graph contains the arguments of its nodes, where the declaration
of the loop is not followed. -/
def IsClosed (graph : OperationGraph) (declaration : Nat)
    (part : Nat → Prop) : Prop :=
  ∀ parent child, part parent → parent ≠ declaration →
    graph.Uses parent child → part child

end OperationGraph

namespace Survey

variable {graph : OperationGraph} {declaration id : Nat} {part : Nat → Prop}
  {before after : Survey} {mark : Dependence}

/-- Exactly the invariant nodes are hoistable that a marked node releases which
is indexed and not the declaration. -/
def Collects (graph : OperationGraph) (declaration : Nat)
    (survey : Survey) : Prop :=
  ∀ id, id ∈ survey.hoistable ↔
    survey.dependence? id = some .invariant ∧
      ∃ parent, parent ≠ declaration ∧
        survey.dependence? parent = some .indexed ∧ graph.Releases parent id

/-- The findings about a part of a graph agree with its paths of arguments, and
all that is worth hoisting is collected. -/
structure Exact (graph : OperationGraph) (declaration : Nat)
    (part : Nat → Prop) (survey : Survey) : Prop where
  faithful : survey.Faithful graph declaration
  within : ∀ id mark, survey.dependence? id = some mark → part id
  collects : survey.Collects graph declaration

theorem exact_empty : Exact graph declaration part {} where
  faithful := faithful_empty
  within := by simp [dependence?]
  collects := by simp [Collects, dependence?]

/-- The arguments of a marked node have the marks that they had before. -/
theorem Grows.dependence_of_uses (grown : Grows graph declaration before after)
    (faithful : before.Faithful graph declaration) {parent child : Nat}
    {known : Dependence} (marked : before.dependence? parent = some known)
    (different : parent ≠ declaration) (edge : graph.Uses parent child)
    (later : after.dependence? child = some mark) :
    before.dependence? child = some mark := by
  rcases faithful.closed parent known marked different with
    ⟨node, found, inside⟩
  rcases edge with ⟨other, stored, uses⟩
  cases found.symm.trans stored
  rcases (inside child uses).2 with ⟨earlier, kept⟩
  cases (grown.keeps child earlier kept).symm.trans later
  exact kept

/--
A survey that marks one more node stays exact if it collects what this node
releases.
-/
theorem Exact.step (exact : before.Exact graph declaration part)
    (grown : Grows graph declaration before after) (inPart : part id)
    (marks : ∀ other, other ≠ id →
      after.dependence? other = before.dependence? other)
    (collected : ∀ child, child ∈ after.hoistable ↔
      child ∈ before.hoistable ∨
        id ≠ declaration ∧ after.dependence? id = some .indexed ∧
          graph.Releases id child ∧ after.dependence? child = some .invariant) :
    after.Exact graph declaration part where
  faithful := grown.faithful
  within other mark known := by
    by_cases equal : other = id
    · rw [equal]
      exact inPart
    · rw [marks other equal] at known
      exact exact.within other mark known
  collects child := by
    rw [collected child]
    constructor
    · rintro (earlier | ⟨different, indexed, releases, invariant⟩)
      · rcases (exact.collects child).mp earlier with
          ⟨invariant, parent, different, indexed, releases⟩
        exact ⟨grown.keeps _ _ invariant, parent, different,
          grown.keeps _ _ indexed, releases⟩
      · exact ⟨invariant, id, different, indexed, releases⟩
    · rintro ⟨invariant, parent, different, indexed, releases⟩
      by_cases equal : parent = id
      · subst equal
        exact .inr ⟨different, indexed, releases, invariant⟩
      · -- what an earlier node releases was marked before, and so collected
        rw [marks parent equal] at indexed
        refine .inl ((exact.collects child).mpr
          ⟨?_, parent, different, indexed, releases⟩)
        exact grown.dependence_of_uses exact.faithful indexed different
          releases.uses invariant

end Survey

namespace OperationGraph

open Survey (Action Grows Exact)

variable {graph : OperationGraph} {declaration id depth : Nat}
  {part : Nat → Prop} {before after : Survey} {node : OperationNode}
  {dependence : Dependence}

theorem conclude_exact (found : graph.node? id = some node)
    (different : id ≠ declaration) {dependences : List Dependence}
    (exact : before.Exact graph declaration part) (inPart : part id)
    (arguments : before.HasMarks graph node.argumentNodes dependences)
    (concluded : graph.conclude id node dependences before =
      .ok dependence after) :
    after.Exact graph declaration part := by
  have grown := (conclude_grows found different exact.faithful arguments
    concluded).1
  rw [conclude_apply] at concluded
  cases concluded
  refine exact.step grown inPart ?_ fun child => ?_
  · intro other distinct
    simp [distinct]
  refine IndexSet.mem_insertAll.trans (or_congr_right ?_)
  rw [mem_releasedArguments]
  constructor
  · rintro ⟨⟨indexed, _, movable⟩, uses, invariant, computed⟩
    refine ⟨different, ?_, ?_, invariant⟩
    · simp [indexed]
    · exact ⟨node, found, Bool.eq_false_iff.mpr movable, uses, computed⟩
  · rintro ⟨_, indexed, ⟨other, stored, movable, uses, computed⟩, invariant⟩
    cases found.symm.trans stored
    -- the released argument is one of the invariant ones that were seen
    rcases Traversal.exists_right_of_mem arguments uses with
      ⟨mark, member, _, known⟩
    cases (grown.keeps child mark known).symm.trans invariant
    refine ⟨⟨?_, List.contains_iff_mem.mpr member,
      Bool.eq_false_iff.mp movable⟩, uses, invariant, computed⟩
    simpa using indexed

theorem visitArguments_exact {visit : Nat → Action Dependence}
    (closed : graph.IsClosed declaration part)
    (visits : ∀ child before after dependence, part child →
      Exact graph declaration part before →
        visit child before = .ok dependence after →
          Exact graph declaration part after)
    (found : graph.node? id = some node) (inPart : part id)
    (different : id ≠ declaration) {positions : List Nat}
    {dependences : List Dependence}
    (exact : before.Exact graph declaration part)
    (visited : graph.visitArguments visit id positions before =
      .ok dependences after) :
    after.Exact graph declaration part := by
  induction positions generalizing before dependences with
  | nil =>
    rcases Survey.pure_eq_ok.mp visited with ⟨_, rfl⟩
    exact exact
  | cons position rest ih =>
    rw [visitArguments, Survey.bind_eq_ok] at visited
    rcases visited with ⟨target, middle, looked, visited⟩
    rcases Survey.ofExcept_eq_ok.mp looked with ⟨resolved, rfl⟩
    cases target with
    | none => exact ih exact visited
    | some child =>
      rcases (argumentNode_eq_ok found).mp resolved with
        ⟨argument, stored, refers, _⟩
      have edge := uses_of_argument found stored refers
      rcases Survey.bind_eq_ok.mp visited with
        ⟨mark, middle, first, visited⟩
      rcases Survey.bind_eq_ok.mp visited with
        ⟨others, last, later, finished⟩
      rcases Survey.pure_eq_ok.mp finished with ⟨_, rfl⟩
      exact ih (visits child before middle mark
        (closed id child inPart different edge) exact first) later

/-- Examining a node of a part keeps a survey exact in it. -/
theorem surveyWithin_exact
    (declares : ∃ node, graph.node? declaration = some node ∧
      node.kind = .indexDeclaration)
    (closed : graph.IsClosed declaration part) (inPart : part id)
    (exact : before.Exact graph declaration part)
    (surveyed : graph.surveyWithin declaration depth id before =
      .ok dependence after) :
    after.Exact graph declaration part := by
  induction depth generalizing id before after dependence with
  | zero =>
    cases marked : before.dependence? id with
    | some mark =>
      rcases surveyWithin_marked marked surveyed with ⟨_, rfl⟩
      exact exact
    | none =>
      rw [surveyWithin, get_bind_apply, marked] at surveyed
      cases surveyed
  | succ depth ih =>
    cases marked : before.dependence? id with
    | some mark =>
      rcases surveyWithin_marked marked surveyed with ⟨_, rfl⟩
      exact exact
    | none =>
      have grown := (surveyWithin_visits declares (depth + 1) id before after
        dependence exact.faithful surveyed).1
      rcases surveyWithin_unmarked marked surveyed with
        ⟨node, found, ⟨rfl, rfl, rfl⟩ |
          ⟨other, dependences, middle, visited, concluded⟩⟩
      · refine exact.step grown inPart ?_ ?_
        · intro other distinct
          simp [distinct]
        · intro child
          show child ∈ before.hoistable ↔ _
          simp
      · have different : id ≠ declaration := by
          rintro rfl
          rcases declares with ⟨declared, stored, kind⟩
          cases found.symm.trans stored
          exact other ⟨kind, rfl⟩
        have arguments := (visitArguments_grows
          (surveyWithin_visits declares depth) found exact.faithful visited).2
        rw [argumentsAt_range] at arguments
        have seen : middle.Exact graph declaration part :=
          visitArguments_exact closed
            (fun _ _ _ _ member exact surveyed => ih member exact surveyed)
            found inPart different exact visited
        exact conclude_exact found different seen inPart arguments concluded

end OperationGraph

end SparseLoop
