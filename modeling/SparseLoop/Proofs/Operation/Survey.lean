import SparseLoop.Operation.Hoisting
import SparseLoop.Proofs.Operation.Evaluation
import SparseLoop.Proofs.Outcome
import SparseLoop.Proofs.Traversal

/-!
# What the marks of a survey say

A survey is faithful if a marked node is indexed exactly when it reaches the
index declaration, if the arguments of a marked node are present and marked,
and if only invariant nodes are hoistable.  Faithfulness does not depend on the
order in which nodes were examined, so it is an invariant of every step of a
survey, and a node that is examined twice gets the same mark.

The main statement is `surveyResults_grows`: a survey of a loop that succeeds
is faithful and has marked every result of the loop.
-/

namespace SparseLoop

open OperationGraph

namespace Survey

/-- The marks agree with the paths of arguments of a graph. -/
structure Faithful (graph : OperationGraph) (declaration : Nat)
    (survey : Survey) : Prop where
  marks : ∀ id dependence, survey.dependence? id = some dependence →
    (dependence = .indexed ↔ graph.Reaches id declaration)
  closed : ∀ id dependence, survey.dependence? id = some dependence →
    id ≠ declaration →
      ∃ node, graph.node? id = some node ∧
        ∀ child ∈ node.argumentNodes, child < graph.size ∧
          ∃ other, survey.dependence? child = some other
  hoistable : ∀ id ∈ survey.hoistable,
    survey.dependence? id = some .invariant

/-- A later survey of the same graph, with at least the same marks. -/
structure Grows (graph : OperationGraph) (declaration : Nat)
    (before after : Survey) : Prop where
  faithful : after.Faithful graph declaration
  keeps : ∀ id dependence, before.dependence? id = some dependence →
    after.dependence? id = some dependence

/-- Nodes of a graph, in order, with the marks that they have. -/
def HasMarks (graph : OperationGraph) (survey : Survey) (nodes : List Nat)
    (dependences : List Dependence) : Prop :=
  List.Forall₂
    (fun id dependence =>
      id < graph.size ∧ survey.dependence? id = some dependence)
    nodes dependences

variable {graph : OperationGraph} {declaration : Nat}
  {before middle after : Survey}

theorem faithful_empty :
    Faithful graph declaration {} where
  marks := by simp [dependence?]
  closed := by simp [dependence?]
  hoistable := by simp

theorem Faithful.refl
    (faithful : before.Faithful graph declaration) :
    Grows graph declaration before before :=
  ⟨faithful, fun _ _ marked => marked⟩

theorem Grows.trans
    (first : Grows graph declaration before middle)
    (second : Grows graph declaration middle after) :
    Grows graph declaration before after :=
  ⟨second.faithful,
    fun id dependence marked =>
      second.keeps id dependence (first.keeps id dependence marked)⟩

@[simp]
theorem dependence?_mark (survey : Survey) (id other : Nat)
    (dependence : Dependence) :
    (survey.mark id dependence).dependence? other =
      if other = id then some dependence else survey.dependence? other := by
  simp [mark, dependence?]

@[simp]
theorem dependence?_addHoistable (survey : Survey) (nodes : List Nat)
    (id : Nat) :
    (survey.addHoistable nodes).dependence? id = survey.dependence? id :=
  rfl

/-- The mark that a node deserves may be noted, once its arguments have
theirs. -/
theorem Faithful.mark
    (faithful : before.Faithful graph declaration)
    {id : Nat} {dependence : Dependence}
    (deserved : dependence = .indexed ↔ graph.Reaches id declaration)
    (complete : id ≠ declaration →
      ∃ node, graph.node? id = some node ∧
        ∀ child ∈ node.argumentNodes, child < graph.size ∧
          ∃ other, before.dependence? child = some other) :
    Grows graph declaration before (before.mark id dependence) := by
  have keeps : ∀ other found, before.dependence? other = some found →
      (before.mark id dependence).dependence? other = some found := by
    intro other found marked
    rw [dependence?_mark]
    split
    · next equal =>
      subst equal
      have same := (faithful.marks other found marked).trans deserved.symm
      cases found <;> cases dependence <;> simp_all
    · exact marked
  have grown : ∀ other,
      (∃ found, before.dependence? other = some found) →
        ∃ found, (before.mark id dependence).dependence? other =
          some found :=
    fun other ⟨found, marked⟩ => ⟨found, keeps other found marked⟩
  refine ⟨⟨?_, ?_, ?_⟩, keeps⟩
  · intro other found marked
    rw [dependence?_mark] at marked
    split at marked
    · next equal =>
      subst equal
      cases marked
      exact deserved
    · exact faithful.marks other found marked
  · intro other found marked different
    rw [dependence?_mark] at marked
    have known : ∃ node, graph.node? other = some node ∧
        ∀ child ∈ node.argumentNodes, child < graph.size ∧
          ∃ mark, before.dependence? child = some mark := by
      split at marked
      · next equal =>
        subst equal
        exact complete different
      · exact faithful.closed other found marked different
    obtain ⟨node, present, inside⟩ := known
    exact ⟨node, present, fun child member =>
      ⟨(inside child member).1, grown child (inside child member).2⟩⟩
  · intro other member
    exact keeps other _ (faithful.hoistable other member)

theorem Faithful.addHoistable
    (faithful : before.Faithful graph declaration) {nodes : List Nat}
    (invariants : ∀ id ∈ nodes, before.dependence? id = some .invariant) :
    Grows graph declaration before (before.addHoistable nodes) := by
  refine ⟨⟨faithful.marks, faithful.closed, ?_⟩, fun _ _ marked => marked⟩
  intro id member
  rcases IndexSet.mem_insertAll.mp member with earlier | added
  · exact faithful.hoistable id earlier
  · exact invariants id added

/-! ## Actions that succeed -/

theorem bind_eq_ok {α β : Type} {first : Action α} {next : α → Action β}
    {result : β} :
    (first >>= next) before = .ok result after ↔
      ∃ value middle, first before = .ok value middle ∧
        next value middle = .ok result after :=
  bind_apply_eq_ok_iff

theorem ofExcept_eq_ok {α : Type} {outcome : Except Failure α} {value : α} :
    ofExcept outcome before = .ok value after ↔
      outcome = .ok value ∧ before = after := by
  cases outcome with
  | ok found =>
    show EStateM.Result.ok found before = .ok value after ↔ _
    simp
  | error failure =>
    show EStateM.Result.error failure before = .ok value after ↔ _
    simp

theorem get_eq_ok {survey : Survey} :
    (get : Action Survey) before = .ok survey after ↔
      before = survey ∧ before = after := by
  show EStateM.Result.ok before before = .ok survey after ↔ _
  simp

theorem modify_eq_ok {change : Survey → Survey} {value : Unit} :
    (modify change : Action Unit) before = .ok value after ↔
      change before = after := by
  show EStateM.Result.ok () (change before) = .ok value after ↔ _
  simp

theorem pure_eq_ok {α : Type} {given value : α} :
    (pure given : Action α) before = .ok value after ↔
      given = value ∧ before = after := by
  show EStateM.Result.ok given before = .ok value after ↔ _
  simp

end Survey

namespace OperationGraph

open Survey (Action Grows Faithful)

variable {graph : OperationGraph} {declaration : Nat}
  {before after : Survey}

theorem node_eq_ok {id : Nat} {node : OperationNode} :
    graph.node id = .ok node ↔ graph.node? id = some node := by
  rw [OperationGraph.node]
  cases graph.node? id <;> simp

/-- An argument resolves if it exists and, unless it is a constant, stands for
a node of the graph. -/
theorem argumentNode_eq_ok {id position : Nat} {target : Option Nat}
    {node : OperationNode} (found : graph.node? id = some node) :
    graph.argumentNode id position = .ok target ↔
      ∃ argument, node.arguments[position]? = some argument ∧
        argument.node? = target ∧
          ∀ child ∈ target, child < graph.size := by
  have resolved : graph.node id = .ok node := node_eq_ok.mpr found
  simp only [argumentNode, resolved, bind, Except.bind]
  cases stored : node.arguments[position]? with
  | none => simp
  | some argument =>
    cases argument with
    | constant bits =>
      cases target <;> simp [Argument.node?]
    | node child =>
      by_cases present : child < graph.size
      · cases target <;> simp [Argument.node?, present]
        rintro rfl
        exact present
      · cases target <;> simp [Argument.node?, present]
        rintro rfl
        exact Nat.le_of_not_lt present

/-- A position among the arguments of a node holds another node of the
graph. -/
theorem argumentNode_eq_some_iff {id position child : Nat}
    {node : OperationNode} (found : graph.node? id = some node) :
    graph.argumentNode id position = .ok (some child) ↔
      node.arguments[position]? = some (.node child) ∧ child < graph.size := by
  rw [argumentNode_eq_ok found]
  constructor
  · rintro ⟨argument, stored, refers, present⟩
    cases argument with
    | constant bits => cases refers
    | node other =>
      cases refers
      exact ⟨stored, present child rfl⟩
  · rintro ⟨stored, present⟩
    refine ⟨_, stored, rfl, ?_⟩
    rintro other equal
    cases equal
    exact present

/-- The nodes that the arguments at some positions refer to. -/
def argumentsAt (node : OperationNode) (positions : List Nat) : List Nat :=
  positions.filterMap fun position =>
    node.arguments[position]?.bind Argument.node?

/-- What an argument refers to comes before what the later ones refer to. -/
theorem argumentsAt_cons {node : OperationNode} {position : Nat}
    {rest : List Nat} {argument : Argument}
    (stored : node.arguments[position]? = some argument) :
    argumentsAt node (position :: rest) =
      argument.node?.toList ++ argumentsAt node rest := by
  have here : node.arguments[position]?.bind Argument.node? =
      argument.node? := by
    rw [stored]
    rfl
  rw [argumentsAt, List.filterMap_cons, here]
  cases argument.node? <;> rfl

/-- A node uses what one of its arguments refers to. -/
theorem uses_of_argument {id child position : Nat} {node : OperationNode}
    {argument : Argument} (found : graph.node? id = some node)
    (stored : node.arguments[position]? = some argument)
    (refers : argument.node? = some child) : graph.Uses id child :=
  ⟨node, found, List.mem_filterMap.mpr
    ⟨argument, List.mem_of_getElem? stored, refers⟩⟩

theorem argumentsAt_range (node : OperationNode) :
    argumentsAt node (List.range node.arguments.length) =
      node.argumentNodes := by
  have stored : (List.range node.arguments.length).map
      (fun position => node.arguments[position]?) =
        node.arguments.map some := by
    apply List.ext_getElem
    · simp
    · intro position _ _
      simp
  have bound : argumentsAt node (List.range node.arguments.length) =
      ((List.range node.arguments.length).map
        fun position => node.arguments[position]?).filterMap
          (·.bind Argument.node?) := by
    rw [List.filterMap_map]
    rfl
  rw [bound, stored, List.filterMap_map]
  rfl

/-- A visit of one node keeps a survey faithful and finds the node's mark. -/
def Visits (graph : OperationGraph) (declaration : Nat)
    (visit : Nat → Action Dependence) : Prop :=
  ∀ id before after dependence, Faithful graph declaration before →
    visit id before = .ok dependence after →
      Grows graph declaration before after ∧
        after.dependence? id = some dependence

theorem visitArguments_grows {visit : Nat → Action Dependence}
    (visits : Visits graph declaration visit)
    {id : Nat} {node : OperationNode} (found : graph.node? id = some node)
    {positions : List Nat} {dependences : List Dependence}
    (faithful : before.Faithful graph declaration)
    (visited : graph.visitArguments visit id positions before =
      .ok dependences after) :
    Grows graph declaration before after ∧
      after.HasMarks graph (argumentsAt node positions) dependences := by
  induction positions generalizing before dependences with
  | nil =>
    obtain ⟨rfl, rfl⟩ := Survey.pure_eq_ok.mp visited
    exact ⟨faithful.refl, .nil⟩
  | cons position rest ih =>
    rw [visitArguments, Survey.bind_eq_ok] at visited
    obtain ⟨target, middle, looked, visited⟩ := visited
    obtain ⟨resolved, rfl⟩ := Survey.ofExcept_eq_ok.mp looked
    obtain ⟨argument, stored, refers, present⟩ :=
      (argumentNode_eq_ok found).mp resolved
    rw [argumentsAt_cons stored, refers]
    cases target with
    | none => exact ih faithful visited
    | some child =>
      obtain ⟨dependence, middle, first, visited⟩ :=
        Survey.bind_eq_ok.mp visited
      obtain ⟨others, last, later, visited⟩ :=
        Survey.bind_eq_ok.mp visited
      obtain ⟨rfl, rfl⟩ := Survey.pure_eq_ok.mp visited
      obtain ⟨grown, marked⟩ := visits child _ _ _ faithful first
      obtain ⟨grownLater, agree⟩ := ih grown.faithful later
      exact ⟨grown.trans grownLater,
        .cons ⟨present child rfl, grownLater.keeps _ _ marked⟩ agree⟩

/-- A node reaches the declaration if and only if one of its arguments is
indexed. -/
theorem indexed_mem_iff_reaches {id : Nat} {node : OperationNode}
    (found : graph.node? id = some node) (different : id ≠ declaration)
    {dependences : List Dependence}
    (faithful : before.Faithful graph declaration)
    (arguments : before.HasMarks graph node.argumentNodes dependences) :
    Dependence.indexed ∈ dependences ↔ graph.Reaches id declaration := by
  rw [reaches_iff_of_ne different]
  constructor
  · intro member
    obtain ⟨child, uses, _, marked⟩ :=
      Traversal.exists_left_of_mem arguments member
    exact ⟨child, ⟨node, found, uses⟩,
      (faithful.marks child _ marked).mp rfl⟩
  · rintro ⟨child, ⟨other, stored, uses⟩, path⟩
    rw [found, Option.some.injEq] at stored
    subst other
    obtain ⟨mark, member, _, marked⟩ :=
      Traversal.exists_right_of_mem arguments uses
    have same := (faithful.marks child mark marked).mpr path
    rwa [same] at member

/-- The mark that the marks of its arguments demand of a node. -/
def conclusionOf (dependences : List Dependence) : Dependence :=
  if dependences.contains .indexed then .indexed else .invariant

/-- The arguments that are found hoistable once a node gets its mark: those
worth computing before the loop, if the node is indexed, does not need them in
every iteration and has an invariant argument at all. -/
def releasedArguments (graph : OperationGraph) (survey : Survey)
    (node : OperationNode) (dependences : List Dependence) : List Nat :=
  if conclusionOf dependences = .indexed ∧ dependences.contains .invariant ∧
      ¬ node.kind.runsEveryIteration then
    graph.hoistableArguments survey node
  else
    []

theorem mem_releasedArguments {survey : Survey} {node : OperationNode}
    {dependences : List Dependence} {child : Nat} :
    child ∈ graph.releasedArguments survey node dependences ↔
      (conclusionOf dependences = .indexed ∧
        dependences.contains .invariant ∧
          ¬ node.kind.runsEveryIteration) ∧
        child ∈ node.argumentNodes ∧
          survey.dependence? child = some .invariant ∧
            graph.isComputed child = true := by
  rw [releasedArguments, List.mem_ite_nil_right]
  simp [hoistableArguments]

/-- A conclusion never fails.  It notes the mark of the node and the arguments
that the node releases. -/
theorem conclude_apply (graph : OperationGraph) (id : Nat)
    (node : OperationNode) (dependences : List Dependence)
    (before : Survey) :
    graph.conclude id node dependences before =
      .ok (conclusionOf dependences)
        ((before.mark id (conclusionOf dependences)).addHoistable
          (graph.releasedArguments
            (before.mark id (conclusionOf dependences)) node
            dependences)) := by
  unfold conclude releasedArguments conclusionOf
  generalize (if dependences.contains .indexed then .indexed
    else Dependence.invariant) = conclusion
  by_cases mixed : conclusion = .indexed ∧
      dependences.contains .invariant ∧ ¬ node.kind.runsEveryIteration
  · simp only [if_pos mixed]
    rfl
  · simp only [if_neg mixed]
    rfl

/-- A node gets the mark that its arguments demand. -/
theorem conclude_grows {id : Nat} {node : OperationNode}
    (found : graph.node? id = some node) (different : id ≠ declaration)
    {dependences : List Dependence} {dependence : Dependence}
    (faithful : before.Faithful graph declaration)
    (arguments : before.HasMarks graph node.argumentNodes dependences)
    (concluded : graph.conclude id node dependences before =
      .ok dependence after) :
    Grows graph declaration before after ∧
      after.dependence? id = some dependence := by
  have complete : ∀ child ∈ node.argumentNodes, child < graph.size ∧
      ∃ other, before.dependence? child = some other := by
    intro child member
    obtain ⟨other, _, present, marked⟩ :=
      Traversal.exists_right_of_mem arguments member
    exact ⟨present, other, marked⟩
  have indexed :=
    indexed_mem_iff_reaches found different faithful arguments
  rw [conclude_apply] at concluded
  cases concluded
  have deserved : conclusionOf dependences = .indexed ↔
      graph.Reaches id declaration := by
    rw [← indexed, conclusionOf]
    by_cases member : Dependence.indexed ∈ dependences <;> simp [member]
  have noted := faithful.mark deserved fun _ => ⟨node, found, complete⟩
  refine ⟨noted.trans (noted.faithful.addHoistable ?_), by simp⟩
  intro child released
  exact (mem_releasedArguments.mp released).2.2.1

/-- The mark that a node has is its answer, and nothing else happens. -/
theorem surveyWithin_marked {id depth : Nat} {mark dependence : Dependence}
    (marked : before.dependence? id = some mark)
    (surveyed : graph.surveyWithin declaration depth id before =
      .ok dependence after) :
    mark = dependence ∧ before = after := by
  cases depth <;>
  · rw [surveyWithin, Survey.bind_eq_ok] at surveyed
    obtain ⟨survey, middle, looked, surveyed⟩ := surveyed
    obtain ⟨rfl, rfl⟩ := Survey.get_eq_ok.mp looked
    rw [marked] at surveyed
    exact Survey.pure_eq_ok.mp surveyed

/-- A node without a mark is examined: the declaration is indexed, and any
other node follows its arguments. -/
theorem surveyWithin_unmarked {id depth : Nat} {dependence : Dependence}
    (marked : before.dependence? id = none)
    (surveyed : graph.surveyWithin declaration (depth + 1) id before =
      .ok dependence after) :
    ∃ node, graph.node? id = some node ∧
      ((id = declaration ∧ dependence = .indexed ∧
          before.mark id .indexed = after) ∨
        (¬ (node.kind = .indexDeclaration ∧ id = declaration) ∧
          ∃ dependences middle,
            graph.visitArguments (graph.surveyWithin declaration depth) id
              (List.range node.arguments.length) before =
                .ok dependences middle ∧
            graph.conclude id node dependences middle =
              .ok dependence after)) := by
  rw [surveyWithin, Survey.bind_eq_ok] at surveyed
  obtain ⟨survey, middle, looked, surveyed⟩ := surveyed
  obtain ⟨rfl, rfl⟩ := Survey.get_eq_ok.mp looked
  rw [marked] at surveyed
  obtain ⟨node, middle, resolved, examined⟩ :=
    Survey.bind_eq_ok.mp surveyed
  obtain ⟨present, rfl⟩ := Survey.ofExcept_eq_ok.mp resolved
  refine ⟨node, node_eq_ok.mp present, ?_⟩
  split at examined
  · next isDeclaration =>
    obtain ⟨_, last, marking, finished⟩ := Survey.bind_eq_ok.mp examined
    obtain rfl := Survey.modify_eq_ok.mp marking
    obtain ⟨rfl, rfl⟩ := Survey.pure_eq_ok.mp finished
    exact .inl ⟨isDeclaration.2, rfl, rfl⟩
  · next isOther =>
    obtain ⟨dependences, last, visited, concluded⟩ :=
      Survey.bind_eq_ok.mp examined
    exact .inr ⟨isOther, dependences, last, visited, concluded⟩

/-- Examining a node marks it as its paths of arguments demand. -/
theorem surveyWithin_visits
    (declares : ∃ node, graph.node? declaration = some node ∧
      node.kind = .indexDeclaration)
    (depth : Nat) :
    graph.Visits declaration (graph.surveyWithin declaration depth) := by
  induction depth with
  | zero =>
    intro id before after dependence faithful surveyed
    cases marked : before.dependence? id with
    | some mark =>
      obtain ⟨rfl, rfl⟩ := surveyWithin_marked marked surveyed
      exact ⟨faithful.refl, marked⟩
    | none =>
      rw [surveyWithin, Survey.bind_eq_ok] at surveyed
      obtain ⟨survey, middle, looked, surveyed⟩ := surveyed
      obtain ⟨rfl, rfl⟩ := Survey.get_eq_ok.mp looked
      rw [marked] at surveyed
      cases surveyed
  | succ depth ih =>
    intro id before after dependence faithful surveyed
    cases marked : before.dependence? id with
    | some mark =>
      obtain ⟨rfl, rfl⟩ := surveyWithin_marked marked surveyed
      exact ⟨faithful.refl, marked⟩
    | none =>
      obtain ⟨node, found, ⟨rfl, rfl, rfl⟩ |
        ⟨isOther, dependences, middle, visited, concluded⟩⟩ :=
          surveyWithin_unmarked marked surveyed
      · have deserved : Dependence.indexed = .indexed ↔
            graph.Reaches id id :=
          ⟨fun _ => .refl, fun _ => rfl⟩
        exact ⟨faithful.mark deserved fun different => absurd rfl different,
          by simp⟩
      · have different : id ≠ declaration := by
          rintro rfl
          obtain ⟨declared, stored, kind⟩ := declares
          rw [found, Option.some.injEq] at stored
          subst declared
          exact isOther ⟨kind, rfl⟩
        obtain ⟨grown, arguments⟩ :=
          visitArguments_grows ih found faithful visited
        rw [argumentsAt_range] at arguments
        obtain ⟨grownLater, marked⟩ := conclude_grows found different
          grown.faithful arguments concluded
        exact ⟨grown.trans grownLater, marked⟩

/-! ## Loops -/

/-- A node starts a loop, and its first argument is an index declaration. -/
def Drives (graph : OperationGraph) (start declaration : Nat) : Prop :=
  ∃ opening declared,
    graph.node? start = some opening ∧ opening.kind = .loopStart ∧
      opening.arguments.head? = some (.node declaration) ∧
      graph.node? declaration = some declared ∧
        declared.kind = .indexDeclaration

theorem Drives.unique {start other : Nat}
    (drives : graph.Drives start declaration)
    (others : graph.Drives start other) : declaration = other := by
  rcases drives with ⟨opening, _, found, _, first, _⟩
  rcases others with ⟨_, _, stored, _, firstOther, _⟩
  cases found.symm.trans stored
  cases first.symm.trans firstOther
  rfl

theorem Drives.declares {start : Nat}
    (drives : graph.Drives start declaration) :
    ∃ node, graph.node? declaration = some node ∧
      node.kind = .indexDeclaration := by
  rcases drives with ⟨_, declared, _, _, _, found, kind⟩
  exact ⟨declared, found, kind⟩

/-- The index of a loop is found if and only if a declaration drives it. -/
theorem loopIndex_eq_ok_iff {start : Nat} :
    graph.loopIndex start = .ok declaration ↔
      graph.Drives start declaration := by
  constructor
  · intro driven
    rcases Traversal.bind_eq_ok_iff.mp driven with ⟨opening, looked, driven⟩
    have found : graph.node? start = some opening := node_eq_ok.mp looked
    by_cases opens : opening.kind = .loopStart
    · simp only [opens, ne_eq, not_true_eq_false, if_false] at driven
      cases resolved : graph.argumentNode start 0 with
      | error failure =>
        rw [resolved] at driven
        cases driven
      | ok target =>
        rw [resolved] at driven
        cases target with
        | none => cases driven
        | some other =>
          rcases Traversal.bind_eq_ok_iff.mp driven with
            ⟨declared, present, same⟩
          rcases (argumentNode_eq_some_iff found).mp resolved with ⟨first, _⟩
          rw [← List.head?_eq_getElem?] at first
          split at same
          · next kind =>
            cases same
            exact ⟨opening, declared, found, opens, first,
              node_eq_ok.mp present, kind⟩
          · cases same
    · simp only [ne_eq, opens, not_false_eq_true, if_true] at driven
      cases driven
  · rintro ⟨opening, declared, found, opens, first, stored, kind⟩
    rw [List.head?_eq_getElem?] at first
    have looked : graph.node start = .ok opening := node_eq_ok.mpr found
    have resolved : graph.argumentNode start 0 = .ok (some declaration) :=
      (argumentNode_eq_some_iff found).mpr ⟨first, lt_size_of_node? stored⟩
    simp [loopIndex, looked, opens, resolved, node_eq_ok.mpr stored, kind,
      bind, Except.bind, pure, Except.pure]

/-- A survey of a loop that succeeds found its declaration and its end, and
surveyed all results. -/
theorem surveyLoop_eq_ok_iff {start finish : Nat} :
    graph.surveyLoop start finish before = .ok () after ↔
      ∃ declaration last, graph.Drives start declaration ∧
        graph.node? finish = some last ∧
          graph.surveyResults declaration finish
            (List.range last.arguments.length) before = .ok () after := by
  rw [surveyLoop, Survey.bind_eq_ok]
  constructor
  · rintro ⟨declaration, middle, looked, opened⟩
    rcases Survey.ofExcept_eq_ok.mp looked with ⟨driven, rfl⟩
    rcases Survey.bind_eq_ok.mp opened with ⟨last, middle, ended, walked⟩
    rcases Survey.ofExcept_eq_ok.mp ended with ⟨resolved, rfl⟩
    exact ⟨declaration, last, loopIndex_eq_ok_iff.mp driven,
      node_eq_ok.mp resolved, walked⟩
  · rintro ⟨declaration, last, drives, found, walked⟩
    refine ⟨declaration, before, Survey.ofExcept_eq_ok.mpr
      ⟨loopIndex_eq_ok_iff.mpr drives, rfl⟩, ?_⟩
    exact Survey.bind_eq_ok.mpr ⟨last, before, Survey.ofExcept_eq_ok.mpr
      ⟨node_eq_ok.mpr found, rfl⟩, walked⟩

theorem surveyResults_grows
    (declares : ∃ node, graph.node? declaration = some node ∧
      node.kind = .indexDeclaration)
    {finish : Nat} {positions : List Nat} {value : Unit}
    (faithful : before.Faithful graph declaration)
    (surveyed : graph.surveyResults declaration finish positions before =
      .ok value after) :
    Grows graph declaration before after ∧
      ∀ position ∈ positions, ∃ result,
        graph.argumentNode finish position = .ok (some result) ∧
          ∃ dependence, after.dependence? result = some dependence := by
  induction positions generalizing before with
  | nil =>
    obtain ⟨_, rfl⟩ := Survey.pure_eq_ok.mp surveyed
    exact ⟨faithful.refl, by simp⟩
  | cons position rest ih =>
    rw [surveyResults, Survey.bind_eq_ok] at surveyed
    obtain ⟨target, middle, looked, surveyed⟩ := surveyed
    obtain ⟨resolved, rfl⟩ := Survey.ofExcept_eq_ok.mp looked
    cases target with
    | none => cases surveyed
    | some result =>
      obtain ⟨dependence, middle, first, later⟩ :=
        Survey.bind_eq_ok.mp surveyed
      obtain ⟨grown, marked⟩ := surveyWithin_visits declares _ result _ _ _
        faithful first
      obtain ⟨grownLater, others⟩ := ih grown.faithful later
      refine ⟨grown.trans grownLater, ?_⟩
      intro other member
      rcases List.mem_cons.mp member with equal | inRest
      · subst equal
        exact ⟨result, resolved, dependence, grownLater.keeps _ _ marked⟩
      · exact others other inRest

end OperationGraph

end SparseLoop
