import SparseLoop.Proofs.Operation.Reachability
import SparseLoop.Proofs.Traversal

/-!
# Values of operation nodes

An interpretation gives every operation a function of its node, its kind, its
numbers and the values of its arguments.  Under an interpretation the nodes of
a graph have values, provided that some of them are given: inside a loop the
index declaration is, and a node that was computed before the loop is as well.

Evaluation counts down from the size of the graph.  `valueWithin_isSome` states
that in an acyclic graph this is enough, and `valueWithin_congr` that a value
does not depend on what is given for a node that it does not reach.
-/

namespace SparseLoop

/-- What the constants and the operations of a graph stand for. -/
structure Interpretation (V : Type) where
  constant : UInt64 → V
  /-- The value of a node of a kind, with its numbers, at some arguments. -/
  operation : Nat → OperationKind → List Nat → List V → V

namespace Interpretation

variable {V : Type}

/-- The value of an argument, where nodes may have values. -/
def argument (meaning : Interpretation V) (nodeValue : Nat → Option V) :
    Argument → Option V
  | .constant bits => some (meaning.constant bits)
  | .node id => nodeValue id

end Interpretation

namespace OperationGraph

variable {V : Type}

/-- The value of a node where the values of some nodes are given, following at
most a given number of arguments one after the other. -/
def valueWithin (graph : OperationGraph) (meaning : Interpretation V)
    (given : Nat → Option V) : Nat → Nat → Option V
  | 0, id => given id
  | depth + 1, id =>
    match given id with
    | some value => some value
    | none => do
      let node ← graph.node? id
      let arguments ← node.arguments.mapM <|
        meaning.argument (valueWithin graph meaning given depth)
      pure (meaning.operation id node.kind node.info arguments)

/-- The value of a node where the values of some nodes are given.  Without a
cycle, no path of arguments is longer than the number of nodes. -/
def value (graph : OperationGraph) (meaning : Interpretation V)
    (given : Nat → Option V) (id : Nat) : Option V :=
  graph.valueWithin meaning given (graph.size + 1) id

variable {graph : OperationGraph} {meaning : Interpretation V}
  {given : Nat → Option V}

theorem valueWithin_of_given {depth id : Nat} {result : V}
    (known : given id = some result) :
    graph.valueWithin meaning given depth id = some result := by
  cases depth with
  | zero => exact known
  | succ depth => simp [valueWithin, known]

/-- The value of a node that is not given comes from its arguments. -/
theorem valueWithin_succ_of_not_given {depth id : Nat}
    (unknown : given id = none) :
    graph.valueWithin meaning given (depth + 1) id =
      (graph.node? id).bind fun node =>
        (node.arguments.mapM <| meaning.argument
          (graph.valueWithin meaning given depth)).map
            (meaning.operation id node.kind node.info) := by
  simp only [valueWithin, unknown, bind, pure]
  cases graph.node? id with
  | none => rfl
  | some node => simp [Option.map_eq_bind]

/-- A node has a value if and only if it is given or its arguments have. -/
theorem valueWithin_succ_eq_some_iff {depth id : Nat} {result : V}
    (unknown : given id = none) :
    graph.valueWithin meaning given (depth + 1) id = some result ↔
      ∃ node, graph.node? id = some node ∧ ∃ arguments,
        List.Forall₂
          (fun source answer => meaning.argument
            (graph.valueWithin meaning given depth) source = some answer)
          node.arguments arguments ∧
        meaning.operation id node.kind node.info arguments = result := by
  rw [valueWithin_succ_of_not_given unknown]
  simp only [Option.bind_eq_some_iff, Option.map_eq_some_iff,
    Traversal.mapM_eq_some_iff]

theorem mem_argumentNodes {node : OperationNode} {id : Nat} :
    id ∈ node.argumentNodes ↔ Argument.node id ∈ node.arguments := by
  rw [OperationNode.argumentNodes, List.mem_filterMap]
  constructor
  · rintro ⟨argument, member, refers⟩
    cases argument with
    | constant bits => simp [Argument.node?] at refers
    | node other =>
      simp only [Argument.node?, Option.some.injEq] at refers
      rwa [refers] at member
  · intro member
    exact ⟨_, member, rfl⟩

theorem argument_mono {first second : Nat → Option V}
    (keeps : ∀ id result, first id = some result → second id = some result)
    {source : Argument} {result : V}
    (found : meaning.argument first source = some result) :
    meaning.argument second source = some result := by
  cases source with
  | constant bits => exact found
  | node id => exact keeps id result found

/-- A value that is found stays the same when more depth is allowed. -/
theorem valueWithin_succ_of_valueWithin {depth id : Nat} {result : V}
    (found : graph.valueWithin meaning given depth id = some result) :
    graph.valueWithin meaning given (depth + 1) id = some result := by
  induction depth generalizing id result with
  | zero => exact valueWithin_of_given found
  | succ depth ih =>
    cases known : given id with
    | some other =>
      rw [valueWithin_of_given known] at found ⊢
      exact found
    | none =>
      obtain ⟨node, present, arguments, visited, computed⟩ :=
        (valueWithin_succ_eq_some_iff known).mp found
      refine (valueWithin_succ_eq_some_iff known).mpr
        ⟨node, present, arguments, ?_, computed⟩
      exact visited.imp fun _ _ => argument_mono fun _ _ => ih

theorem valueWithin_mono {depth more id : Nat} {result : V}
    (enough : depth ≤ more)
    (found : graph.valueWithin meaning given depth id = some result) :
    graph.valueWithin meaning given more id = some result := by
  induction enough with
  | refl => exact found
  | step _ ih => exact valueWithin_succ_of_valueWithin ih

/-- Evaluation at two depths finds no two values. -/
theorem valueWithin_unique {depth more id : Nat} {first second : V}
    (foundFirst : graph.valueWithin meaning given depth id = some first)
    (foundSecond : graph.valueWithin meaning given more id = some second) :
    first = second := by
  have left := valueWithin_mono (Nat.le_max_left depth more) foundFirst
  have right := valueWithin_mono (Nat.le_max_right depth more) foundSecond
  exact Option.some.inj (left.symm.trans right)

/-- Two evaluations agree at a node if the same is given wherever it leads. -/
theorem valueWithin_congr {given' : Nat → Option V} {depth id : Nat}
    (agree : ∀ target, graph.Reaches id target →
      given target = given' target) :
    graph.valueWithin meaning given depth id =
      graph.valueWithin meaning given' depth id := by
  induction depth generalizing id with
  | zero => exact agree id .refl
  | succ depth ih =>
    cases known : given id with
    | some result =>
      have same : given' id = some result := by
        rw [← agree id .refl, known]
      rw [valueWithin_of_given known, valueWithin_of_given same]
    | none =>
      have same : given' id = none := by
        rw [← agree id .refl, known]
      rw [valueWithin_succ_of_not_given known,
        valueWithin_succ_of_not_given same]
      cases present : graph.node? id with
      | none => rfl
      | some node =>
        have arguments : ∀ source ∈ node.arguments,
            meaning.argument
                (graph.valueWithin meaning given depth) source =
              meaning.argument
                (graph.valueWithin meaning given' depth) source := by
          intro source member
          cases source with
          | constant bits => rfl
          | node child =>
            refine ih fun target path => agree target ?_
            have edge : graph.Uses id child :=
              ⟨node, present, mem_argumentNodes.mpr member⟩
            exact .head edge path
        simp only [Option.bind_some]
        rw [Traversal.mapM_congr arguments]

/--
Giving some nodes the values that they have anyway changes no value that is
found.
-/
theorem valueWithin_of_consistent {given' : Nat → Option V}
    (extendsGiven : ∀ id result,
      given id = some result → given' id = some result)
    (consistent : ∀ id result, given' id = some result →
      ∃ depth, graph.valueWithin meaning given depth id = some result)
    {depth id : Nat} {result : V}
    (found : graph.valueWithin meaning given depth id = some result) :
    graph.valueWithin meaning given' depth id = some result := by
  induction depth generalizing id result with
  | zero => exact extendsGiven id result found
  | succ depth ih =>
    cases replaced : given' id with
    | some other =>
      obtain ⟨enough, foundOther⟩ := consistent id other replaced
      rw [valueWithin_unique found foundOther]
      exact valueWithin_of_given replaced
    | none =>
      have known : given id = none := by
        rw [Option.eq_none_iff_forall_ne_some]
        intro other equal
        rw [extendsGiven id other equal] at replaced
        simp at replaced
      obtain ⟨node, present, arguments, visited, computed⟩ :=
        (valueWithin_succ_eq_some_iff known).mp found
      refine (valueWithin_succ_eq_some_iff replaced).mpr
        ⟨node, present, arguments, ?_, computed⟩
      exact visited.imp fun _ _ => argument_mono fun _ _ => ih

/--
In an acyclic graph every node of a collection has a value, if all of them are
given or present and the arguments of a node that is not given belong to the
collection as well.
-/
theorem Acyclic.exists_value (acyclic : graph.Acyclic)
    (Covered : Nat → Prop)
    (closed : ∀ id, Covered id → given id = none →
      ∃ node, graph.node? id = some node ∧
        ∀ child ∈ node.argumentNodes, Covered child)
    {id : Nat} (covered : Covered id) :
    ∃ result, graph.value meaning given id = some result := by
  obtain ⟨rank, bounded, falls⟩ := acyclic.exists_rank
  suffices within : ∀ depth id, rank id < depth → Covered id →
      ∃ result, graph.valueWithin meaning given depth id = some result by
    exact within _ id (Nat.lt_succ_of_le (bounded id)) covered
  intro depth
  induction depth with
  | zero =>
    intro id below
    exact absurd below (Nat.not_lt_zero _)
  | succ depth ih =>
    intro id below covered
    cases known : given id with
    | some result => exact ⟨result, valueWithin_of_given known⟩
    | none =>
      obtain ⟨node, present, inside⟩ := closed id covered known
      have arguments : ∀ source ∈ node.arguments, ∃ result,
          meaning.argument
            (graph.valueWithin meaning given depth) source =
              some result := by
        intro source member
        cases source with
        | constant bits => exact ⟨_, rfl⟩
        | node child =>
          have uses : child ∈ node.argumentNodes :=
            mem_argumentNodes.mpr member
          have lower := falls id child ⟨node, present, uses⟩
          exact ih child (by omega) (inside child uses)
      obtain ⟨answers, visited⟩ := Traversal.exists_forall₂ arguments
      exact ⟨_, (valueWithin_succ_eq_some_iff known).mpr
        ⟨node, present, answers, visited, rfl⟩⟩

end OperationGraph

end SparseLoop
