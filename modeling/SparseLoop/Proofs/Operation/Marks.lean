import SparseLoop.Proofs.Operation.Extension
import SparseLoop.Proofs.Operation.Survey
import SparseLoop.Proofs.Outcome

/-!
# Marks that many surveys share

Surveys may share their marks: each one starts with the marks that earlier ones
left, some of which failed halfway, and between them the graph may grow.  The
marks stay faithful to the paths of arguments throughout, since a node is marked
only after all its arguments.

This decides the outcome of every survey.  It succeeds exactly if the node
resolves, that is, if no argument on the way from it is missing, where the index
declaration is not followed further.  Otherwise it fails and leaves the node
without a mark.  `sharedMarks_decide_survey` states both for all histories.
-/

namespace SparseLoop

namespace OperationGraph

/-- A path of arguments leads from a node to a target, and the declaration of
the loop is at most its last node. -/
def ReachesInside (graph : OperationGraph) (declaration source target : Nat) :
    Prop :=
  Relation.ReflTransGen
    (fun parent child => parent ≠ declaration ∧ graph.Uses parent child)
    source target

/-- A node is present, and so are all nodes to which arguments lead from it
without passing through the declaration of the loop. -/
structure Resolves (graph : OperationGraph) (declaration id : Nat) : Prop where
  present : id < graph.size
  arguments : ∀ parent, graph.ReachesInside declaration id parent →
    parent ≠ declaration → ∀ child, graph.Uses parent child →
      child < graph.size

variable {graph later : OperationGraph} {declaration id : Nat}

theorem Resolves.argument (resolves : graph.Resolves declaration id)
    (different : id ≠ declaration) {child : Nat}
    (edge : graph.Uses id child) : graph.Resolves declaration child where
  present := resolves.arguments id .refl different child edge
  arguments parent path :=
    resolves.arguments parent (.head ⟨different, edge⟩ path)

end OperationGraph

namespace Survey

open OperationGraph

variable {graph later : OperationGraph} {declaration id : Nat}
  {survey before after : Survey} {mark : Dependence}

/-- A survey as if nothing had been found hoistable. -/
def marksOnly (survey : Survey) : Survey where
  marks := survey.marks

/-- Every path from a marked node that ends at the declaration or earlier
passes marked nodes only. -/
theorem Faithful.marked_of_reachesInside
    (faithful : survey.Faithful graph declaration)
    (marked : ∃ mark, survey.dependence? id = some mark) {target : Nat}
    (path : graph.ReachesInside declaration id target) :
    ∃ mark, survey.dependence? target = some mark := by
  induction path with
  | refl => exact marked
  | tail _ edge ih =>
    rcases edge with ⟨different, node, found, uses⟩
    rcases ih with ⟨mark, known⟩
    rcases faithful.closed _ mark known different with ⟨other, stored, inside⟩
    rw [found] at stored
    cases stored
    exact (inside _ uses).2

/-- A marked node resolves. -/
theorem Faithful.resolves (faithful : survey.Faithful graph declaration)
    (declares : declaration < graph.size)
    (marked : ∃ mark, survey.dependence? id = some mark) :
    graph.Resolves declaration id where
  present := by
    rcases marked with ⟨mark, known⟩
    by_cases equal : id = declaration
    · rw [equal]
      exact declares
    · rcases faithful.closed id mark known equal with ⟨node, found, _⟩
      exact lt_size_of_node? found
  arguments := by
    intro parent path different child edge
    rcases faithful.marked_of_reachesInside marked path with ⟨mark, known⟩
    rcases faithful.closed parent mark known different with
      ⟨node, found, inside⟩
    rcases edge with ⟨other, stored, uses⟩
    rw [found] at stored
    cases stored
    exact (inside child uses).1

/-- No path leads from a marked node to the declaration only because the graph
has grown. -/
theorem Faithful.reaches_of_extendsTo
    (faithful : survey.Faithful graph declaration)
    (extension : graph.ExtendsTo later)
    (marked : ∃ mark, survey.dependence? id = some mark)
    (path : later.Reaches id declaration) : graph.Reaches id declaration := by
  induction path using Relation.ReflTransGen.head_induction_on with
  | refl => exact .refl
  | @head parent child edge _ ih =>
    by_cases equal : parent = declaration
    · rw [equal]
      exact .refl
    · rcases marked with ⟨mark, known⟩
      rcases faithful.closed parent mark known equal with
        ⟨node, found, inside⟩
      have kept : graph.Uses parent child :=
        (extension.uses_iff (lt_size_of_node? found)).mp edge
      rcases kept with ⟨other, stored, uses⟩
      rw [found] at stored
      cases stored
      exact .head ⟨node, found, uses⟩ (ih (inside child uses).2)

/-- Marks stay faithful when the graph grows. -/
theorem Faithful.extend (faithful : survey.Faithful graph declaration)
    (extension : graph.ExtendsTo later) :
    survey.Faithful later declaration where
  marks other mark known := by
    rw [faithful.marks other mark known]
    exact ⟨extension.reaches,
      faithful.reaches_of_extendsTo extension ⟨mark, known⟩⟩
  closed other mark known different := by
    rcases faithful.closed other mark known different with
      ⟨node, found, inside⟩
    refine ⟨node, extension.nodes other node found, fun child uses => ?_⟩
    rcases inside child uses with ⟨present, marked⟩
    exact ⟨extension.lt_size present, marked⟩
  hoistable := faithful.hoistable

/-- Marks that grow are still faithful without what was found hoistable. -/
theorem Grows.marksOnly (grown : Grows graph declaration before after) :
    Grows graph declaration before after.marksOnly where
  faithful :=
    { marks := grown.faithful.marks
      closed := grown.faithful.closed
      hoistable := by simp [Survey.marksOnly] }
  keeps := grown.keeps

end Survey

/-- A failure that tells of a missing node. -/
def Failure.IsMissing : Failure → Prop
  | .unknownNode _ => True
  | .danglingArgument _ _ => True
  | _ => False

namespace OperationGraph

open Survey (Action Grows Faithful)

variable {graph : OperationGraph} {declaration id depth : Nat}
  {before : Survey} {node : OperationNode} {mark : Dependence}

/-! ## One survey -/

theorem ofExcept_bind_apply {α β : Type} {value : α} {next : α → Action β} :
    (Survey.ofExcept (.ok value) >>= next) before = next value before :=
  rfl

theorem surveyWithin_of_marked (known : before.dependence? id = some mark) :
    graph.surveyWithin declaration depth id before = .ok mark before := by
  cases depth <;>
  · rw [surveyWithin, get_bind_apply, known]
    rfl

/-- A node without a mark that is not the declaration follows its
arguments. -/
theorem surveyWithin_of_unmarked (unknown : before.dependence? id = none)
    (found : graph.node? id = some node) (different : id ≠ declaration) :
    graph.surveyWithin declaration (depth + 1) id before =
      (graph.visitArguments (graph.surveyWithin declaration depth) id
        (List.range node.arguments.length) >>= graph.conclude id node)
          before := by
  rw [surveyWithin, get_bind_apply, unknown]
  simp only [node_eq_ok.mpr found, ofExcept_bind_apply]
  rw [if_neg fun both => different both.2]

/-- The declaration of the loop is marked without a look at its arguments. -/
theorem surveyWithin_declaration
    (unknown : before.dependence? declaration = none)
    (found : graph.node? declaration = some node)
    (kind : node.kind = .indexDeclaration) :
    graph.surveyWithin declaration (depth + 1) declaration before =
      .ok .indexed (before.mark declaration .indexed) := by
  rw [surveyWithin, get_bind_apply, unknown]
  simp only [node_eq_ok.mpr found, ofExcept_bind_apply]
  rw [if_pos ⟨kind, trivial⟩]
  rfl

theorem surveyWithin_missing (unknown : before.dependence? id = none)
    (missing : graph.node? id = none) :
    graph.surveyWithin declaration (depth + 1) id before =
      .error (.unknownNode id) before := by
  rw [surveyWithin, get_bind_apply, unknown]
  simp only [OperationGraph.node, missing]
  rfl

/-- An examination of a node lets the marks grow.  Its answer is the mark of
the node, and a failure means that a node is missing on the way from it. -/
def Examines (graph : OperationGraph) (declaration : Nat)
    (visit : Nat → Action Dependence) (id : Nat) : Prop :=
  ∀ before, before.marksOnly.Faithful graph declaration →
    Ends
      (fun mark after =>
        Grows graph declaration before.marksOnly after.marksOnly ∧
          after.dependence? id = some mark)
      (fun failure after =>
        Grows graph declaration before.marksOnly after.marksOnly ∧
          failure.IsMissing ∧ ¬ graph.Resolves declaration id)
      (visit id before)

theorem conclude_ends (found : graph.node? id = some node)
    (different : id ≠ declaration) {dependences : List Dependence}
    (faithful : before.marksOnly.Faithful graph declaration)
    (arguments : before.HasMarks graph node.argumentNodes dependences)
    (fails : Failure → Survey → Prop) :
    Ends
      (fun answer after =>
        Grows graph declaration before.marksOnly after.marksOnly ∧
          after.dependence? id = some answer)
      fails (graph.conclude id node dependences before) := by
  have grown := (conclude_grows found different faithful arguments
    (conclude_apply graph id node dependences before.marksOnly)).1.marksOnly
  rw [conclude_apply]
  exact ⟨grown, by simp⟩

/-- An argument that does not resolve is a node that is missing. -/
theorem argumentNode_eq_error {position : Nat} {failure : Failure}
    (found : graph.node? id = some node)
    (inside : position < node.arguments.length)
    (fails : graph.argumentNode id position = .error failure) :
    failure.IsMissing ∧ ∃ child, graph.Uses id child ∧ ¬ child < graph.size := by
  simp only [argumentNode, node_eq_ok.mpr found, bind, Except.bind,
    List.getElem?_eq_getElem inside] at fails
  split at fails
  · cases fails
  · next child refers =>
    split at fails
    · cases fails
    · next missing =>
      cases fails
      have member : Argument.node child ∈ node.arguments := by
        rw [← Option.some.inj refers]
        exact List.getElem_mem inside
      exact ⟨trivial, child, ⟨node, found, mem_argumentNodes.mpr member⟩,
        missing⟩
  · next absurdly => cases absurdly

theorem visitArguments_ends {visit : Nat → Action Dependence}
    (found : graph.node? id = some node) (different : id ≠ declaration)
    (visits : ∀ child, graph.Uses id child →
      graph.Examines declaration visit child)
    {positions : List Nat}
    (inside : ∀ position ∈ positions, position < node.arguments.length)
    (faithful : before.marksOnly.Faithful graph declaration) :
    Ends
      (fun dependences after =>
        Grows graph declaration before.marksOnly after.marksOnly ∧
          after.HasMarks graph (argumentsAt node positions) dependences)
      (fun failure after =>
        Grows graph declaration before.marksOnly after.marksOnly ∧
          failure.IsMissing ∧ ¬ graph.Resolves declaration id)
      (graph.visitArguments visit id positions before) := by
  induction positions generalizing before with
  | nil => exact ⟨faithful.refl, .nil⟩
  | cons position rest ih =>
    have here : position < node.arguments.length :=
      inside position List.mem_cons_self
    have later : ∀ other ∈ rest, other < node.arguments.length :=
      fun other member => inside other (List.mem_cons_of_mem position member)
    rw [visitArguments]
    cases looked : graph.argumentNode id position with
    | error failure =>
      rcases argumentNode_eq_error found here looked with
        ⟨missing, child, edge, absent⟩
      exact ⟨faithful.refl, missing,
        fun resolves => absent (resolves.argument different edge).present⟩
    | ok target =>
      rcases (argumentNode_eq_ok found).mp looked with
        ⟨argument, stored, refers, present⟩
      rw [argumentsAt_cons stored, refers]
      cases target with
      | none => exact ih later faithful
      | some child =>
        have edge := uses_of_argument found stored refers
        show Ends _ _ ((visit child >>= fun dependence =>
          graph.visitArguments visit id rest >>= fun others =>
            pure (dependence :: others)) before)
        refine Ends.bind (Ends.mono (visits child edge before faithful)
          (fun _ _ both => both) ?_) ?_
        · rintro failure after ⟨grown, missing, unresolved⟩
          exact ⟨grown, missing,
            fun resolves => unresolved (resolves.argument different edge)⟩
        · rintro dependence middle ⟨grown, marked⟩
          refine Ends.bind (Ends.mono (ih later grown.faithful)
            (fun _ _ both => both) ?_) ?_
          · rintro failure after ⟨grownLater, rest⟩
            exact ⟨grown.trans grownLater, rest⟩
          · rintro others after ⟨grownLater, agree⟩
            exact ⟨grown.trans grownLater,
              .cons ⟨present child rfl, grownLater.keeps _ _ marked⟩ agree⟩

/-- Examining a node in an acyclic graph, to a depth above its rank. -/
theorem surveyWithin_examines
    (declares : ∃ node, graph.node? declaration = some node ∧
      node.kind = .indexDeclaration)
    {rank : Nat → Nat}
    (falls : ∀ parent child, graph.Uses parent child →
      rank child < rank parent)
    (enough : rank id < depth) :
    graph.Examines declaration (graph.surveyWithin declaration depth) id := by
  induction depth generalizing id with
  | zero => exact absurd enough (Nat.not_lt_zero _)
  | succ depth ih =>
    intro before faithful
    cases known : before.dependence? id with
    | some mark =>
      rw [surveyWithin_of_marked known]
      exact ⟨faithful.refl, known⟩
    | none =>
      cases found : graph.node? id with
      | none =>
        rw [surveyWithin_missing known found]
        exact ⟨faithful.refl, trivial, fun resolves =>
          absurd resolves.present (Nat.not_lt.mpr (node?_eq_none.mp found))⟩
      | some node =>
        by_cases equal : id = declaration
        · subst equal
          rcases declares with ⟨declared, stored, kind⟩
          rw [surveyWithin_declaration known stored kind]
          refine ⟨faithful.mark ⟨fun _ => .refl, fun _ => rfl⟩
            fun different => absurd rfl different, ?_⟩
          simp
        · rw [surveyWithin_of_unmarked known found equal]
          have visits : ∀ child, graph.Uses id child →
              graph.Examines declaration
                (graph.surveyWithin declaration depth) child := by
            intro child edge
            have lower := falls id child edge
            exact ih (by omega)
          refine Ends.bind (visitArguments_ends found equal visits
            (fun position member => List.mem_range.mp member) faithful) ?_
          rintro dependences middle ⟨grown, arguments⟩
          rw [argumentsAt_range] at arguments
          refine Ends.mono (conclude_ends found equal grown.faithful arguments
            (fun _ _ => False)) ?_ (fun _ _ absurdly => absurdly.elim)
          rintro answer after ⟨grownLater, marked⟩
          exact ⟨grown.trans grownLater, marked⟩

/-! ## Histories -/

/-- The graphs and marks that come about when surveys of one loop share their
marks.  Between surveys the graph may grow, and a survey may fail. -/
inductive SharedMarks (declaration : Nat) :
    OperationGraph → IndexMap Dependence → Prop where
  /-- At first nothing is marked. -/
  | start {graph : OperationGraph} (acyclic : graph.Acyclic)
      (declares : ∃ node, graph.node? declaration = some node ∧
        node.kind = .indexDeclaration) :
      SharedMarks declaration graph ∅
  /-- Nodes are added, which close no cycle. -/
  | grow {graph later : OperationGraph} {marks : IndexMap Dependence}
      (earlier : SharedMarks declaration graph marks)
      (extension : graph.ExtendsTo later) (acyclic : later.Acyclic) :
      SharedMarks declaration later marks
  /-- A node is surveyed, with whatever was found hoistable before. -/
  | survey {graph : OperationGraph} {marks : IndexMap Dependence}
      (earlier : SharedMarks declaration graph marks) (id : Nat)
      (hoistable : IndexSet) :
      SharedMarks declaration graph
        (stateAfter (graph.survey declaration id { marks, hoistable })).marks

/-- What a survey guarantees in an acyclic graph. -/
theorem Acyclic.survey_examines (acyclic : graph.Acyclic)
    (declares : ∃ node, graph.node? declaration = some node ∧
      node.kind = .indexDeclaration) (id : Nat) :
    graph.Examines declaration (graph.survey declaration) id := by
  rcases acyclic.exists_rank with ⟨rank, bounded, falls⟩
  exact surveyWithin_examines declares falls (Nat.lt_succ_of_le (bounded id))

/-- In every history the marks are faithful, and the graph is acyclic and
declares the index. -/
theorem SharedMarks.invariant {marks : IndexMap Dependence}
    (history : SharedMarks declaration graph marks) :
    graph.Acyclic ∧
      (∃ node, graph.node? declaration = some node ∧
        node.kind = .indexDeclaration) ∧
      Faithful graph declaration { marks } := by
  induction history with
  | start acyclic declares =>
    exact ⟨acyclic, declares, Survey.faithful_empty⟩
  | grow _ extension acyclic ih =>
    rcases ih with ⟨_, ⟨node, found, kind⟩, faithful⟩
    exact ⟨acyclic, ⟨node, extension.nodes _ node found, kind⟩,
      faithful.extend extension⟩
  | survey _ id hoistable ih =>
    rcases ih with ⟨acyclic, declares, faithful⟩
    have ends := acyclic.survey_examines declares id { marks := _, hoistable }
      faithful
    have grown := Ends.stateAfter (ends.mono (fun _ _ both => both.1)
      (fun _ _ both => both.1))
    exact ⟨acyclic, declares, grown.faithful⟩

/--
In every history of surveys that share their marks, the marks agree with the
paths of arguments.  A survey answers exactly at the nodes that resolve, and
then it answers whether the declaration is reached.  At any other node it fails
because a node is missing, and leaves the surveyed node without a mark.
-/
theorem sharedMarks_decide_survey {marks : IndexMap Dependence}
    (history : SharedMarks declaration graph marks) :
    (∀ id, marks.get? id = some .invariant →
      ¬ graph.Reaches id declaration) ∧
    (∀ id, marks.get? id = some .indexed → graph.Reaches id declaration) ∧
    ∀ id hoistable,
      ((∃ after, graph.survey declaration id { marks, hoistable } =
          .ok .invariant after) ↔
        graph.Resolves declaration id ∧ ¬ graph.Reaches id declaration) ∧
      ((∃ after, graph.survey declaration id { marks, hoistable } =
          .ok .indexed after) ↔
        graph.Resolves declaration id ∧ graph.Reaches id declaration) ∧
      (¬ graph.Resolves declaration id →
        ∃ failure after,
          graph.survey declaration id { marks, hoistable } =
              .error failure after ∧
            failure.IsMissing ∧ after.dependence? id = none) := by
  rcases history.invariant with ⟨acyclic, declares, faithful⟩
  have present : declaration < graph.size := by
    rcases declares with ⟨node, found, _⟩
    exact lt_size_of_node? found
  refine ⟨?_, ?_, fun id hoistable => ?_⟩
  · intro id marked path
    cases (faithful.marks id _ marked).mpr path
  · intro id marked
    exact (faithful.marks id _ marked).mp rfl
  have ends := acyclic.survey_examines declares id { marks, hoistable }
    faithful
  cases outcome : graph.survey declaration id { marks, hoistable } with
  | ok mark after =>
    rw [outcome] at ends
    rcases ends with ⟨grown, marked⟩
    have resolves : graph.Resolves declaration id :=
      grown.faithful.resolves present ⟨mark, marked⟩
    have meaning := grown.faithful.marks id mark marked
    cases mark with
    | invariant =>
      have away : ¬ graph.Reaches id declaration := by
        intro path
        cases meaning.mpr path
      refine ⟨⟨fun _ => ⟨resolves, away⟩, fun _ => ⟨after, rfl⟩⟩,
        ⟨?_, fun both => absurd both.2 away⟩,
        fun unresolved => absurd resolves unresolved⟩
      rintro ⟨_, equal⟩
      cases equal
    | indexed =>
      have path : graph.Reaches id declaration := meaning.mp rfl
      refine ⟨⟨?_, fun both => absurd path both.2⟩,
        ⟨fun _ => ⟨resolves, path⟩, fun _ => ⟨after, rfl⟩⟩,
        fun unresolved => absurd resolves unresolved⟩
      rintro ⟨_, equal⟩
      cases equal
  | error failure after =>
    rw [outcome] at ends
    rcases ends with ⟨grown, missing, unresolved⟩
    have unmarked : after.dependence? id = none := by
      cases marked : after.dependence? id with
      | none => rfl
      | some mark =>
        exact absurd (grown.faithful.resolves present ⟨mark, marked⟩)
          unresolved
    refine ⟨⟨?_, fun both => absurd both.1 unresolved⟩,
      ⟨?_, fun both => absurd both.1 unresolved⟩,
      fun _ => ⟨failure, after, rfl, missing, unmarked⟩⟩ <;>
    · rintro ⟨_, equal⟩
      cases equal

/-- The loop of `x * (y + z)` in which `z` is not there yet. -/
def unfinishedLoop : OperationGraph where
  nodes := #[
    { kind := .indexDeclaration, info := [], arguments := [],
      name := some "it" },
    { kind := .index, info := [], arguments := [.node 0] },
    { kind := .independent, info := [7], arguments := [] },
    { kind := .add, info := [], arguments := [.node 2, .node 5] },
    { kind := .multiply, info := [], arguments := [.node 1, .node 3] }]

/-- The same loop with `z`, the sine of `y`. -/
def finishedLoop : OperationGraph :=
  unfinishedLoop.addNode
    { kind := .sine, info := [], arguments := [.node 2] }

/-- The marks that a survey of the unfinished loop leaves when it fails. -/
def unfinishedMarks : IndexMap Dependence :=
  (stateAfter (unfinishedLoop.survey 0 4 {})).marks

/-- The survey of the unfinished loop fails at `z` after `x` and `y` got their
marks.  With these marks the finished loop is surveyed, and its product resolves
and reaches the index declaration. -/
theorem sharedMarks_decide_finishedLoop :
    SharedMarks 0 finishedLoop unfinishedMarks ∧
    unfinishedMarks.entries = [(0, .indexed), (1, .indexed), (2, .invariant)] ∧
    finishedLoop.Resolves 0 4 ∧ finishedLoop.Reaches 4 0 := by
  let rank : Nat → Nat := fun id => [0, 1, 0, 2, 3, 1].getD id 0
  have unfinished : SharedMarks 0 unfinishedLoop ∅ :=
    .start (acyclic_of_rank rank (by decide)) ⟨_, rfl, rfl⟩
  have history : SharedMarks 0 finishedLoop unfinishedMarks :=
    .grow (.survey unfinished 4 ∅) (extendsTo_addNode _ _)
      (acyclic_of_rank rank (by decide))
  refine ⟨history, by decide, ?_⟩
  exact ((sharedMarks_decide_survey history).2.2 4 ∅).2.1.mp ⟨_, rfl⟩

end OperationGraph

end SparseLoop
