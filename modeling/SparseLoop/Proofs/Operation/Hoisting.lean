import SparseLoop.Proofs.Operation.Survey

/-!
# The meaning of a loop under hoisting

A hoisted node is computed once, at whichever iteration the loop begins with,
and its value is used in all others.  This changes no result of the loop:
hoisted nodes are invariant, so no path of arguments leads from them to the
index declaration, and their values are the same at every iteration.

`hoist_preserves_results` states this for every interpretation of the
operations.  It also states that every result has a value at all, before and
after, so that the agreement is never one of two undefined values.
-/

namespace SparseLoop

namespace OperationGraph

open Survey (Faithful)

variable {V : Type} {graph : OperationGraph} {declaration : Nat}

/-- What is given inside a loop: the index declaration is the iteration. -/
def duringLoop (declaration : Nat) (iteration : V) : Nat → Option V :=
  fun id => if id = declaration then some iteration else none

/-- What is given inside a loop after the hoisted nodes were computed, with
their values at another iteration. -/
def afterHoisting (graph : OperationGraph) (meaning : Interpretation V)
    (declaration : Nat) (hoisted : List Nat) (iteration computedAt : V) :
    Nat → Option V :=
  fun id =>
    if id = declaration then some iteration
    else if id ∈ hoisted then
      graph.value meaning (duringLoop declaration computedAt) id
    else none

@[simp]
theorem duringLoop_declaration (iteration : V) :
    duringLoop declaration iteration declaration = some iteration := by
  simp [duringLoop]

theorem duringLoop_eq_none_iff {iteration : V} {id : Nat} :
    duringLoop declaration iteration id = none ↔ id ≠ declaration := by
  simp [duringLoop]

/-- The value of an invariant node is the same at every iteration. -/
theorem value_duringLoop_of_invariant (meaning : Interpretation V)
    {id : Nat} (invariant : ¬ graph.Reaches id declaration)
    (first second : V) :
    graph.value meaning (duringLoop declaration first) id =
      graph.value meaning (duringLoop declaration second) id := by
  apply valueWithin_congr
  intro target path
  have different : target ≠ declaration := by
    rintro rfl
    exact invariant path
  simp [duringLoop, different]

/-- A loop that was surveyed faithfully, with its hoistable nodes. -/
structure Hoists (graph : OperationGraph) (start finish : Nat)
    (hoisted : List Nat) (declaration : Nat) (last : OperationNode)
    (survey : Survey) : Prop where
  driven : graph.loopIndex start = .ok declaration
  ends : graph.node? finish = some last
  faithful : survey.Faithful graph declaration
  mem_hoisted : ∀ id, id ∈ hoisted ↔ id ∈ survey.hoistable
  results : ∀ position, position < last.arguments.length →
    ∃ result, graph.argumentNode finish position = .ok (some result) ∧
      ∃ dependence, survey.dependence? result = some dependence

/-- What a loop is from which hoisting succeeds without earlier marks. -/
theorem exists_hoists_of_hoist {start finish : Nat} {hoisted : List Nat}
    {moved : OperationGraph}
    (succeeds : (graph.hoist ∅ start finish).1 = .ok (hoisted, moved)) :
    ∃ declaration last survey,
      graph.Hoists start finish hoisted declaration last survey := by
  rw [hoist] at succeeds
  split at succeeds
  · next value survey surveyed =>
    simp only [Except.ok.injEq, Prod.mk.injEq] at succeeds
    obtain ⟨listed, _⟩ := succeeds
    subst hoisted
    change graph.surveyLoop start finish {} = _ at surveyed
    obtain ⟨declaration, last, drives, found, walked⟩ :=
      surveyLoop_eq_ok_iff.mp surveyed
    obtain ⟨grown, results⟩ := surveyResults_grows drives.declares
      Survey.faithful_empty walked
    refine ⟨declaration, last, survey, loopIndex_eq_ok_iff.mpr drives, found,
      grown.faithful, fun id => Iff.rfl, ?_⟩
    intro position inside
    exact results position (List.mem_range.mpr inside)
  · cases succeeds

namespace Hoists

variable {start finish : Nat} {hoisted : List Nat} {last : OperationNode}
  {survey : Survey}

/-- Every marked node has a value inside the loop. -/
theorem exists_value
    (hoists : graph.Hoists start finish hoisted declaration last survey)
    (acyclic : graph.Acyclic) (meaning : Interpretation V) (iteration : V)
    {id : Nat} {dependence : Dependence}
    (marked : survey.dependence? id = some dependence) :
    ∃ value,
      graph.value meaning (duringLoop declaration iteration) id =
        some value := by
  apply acyclic.exists_value
    (fun id => ∃ mark, survey.dependence? id = some mark)
  · rintro other ⟨mark, known⟩ unknown
    have different := duringLoop_eq_none_iff.mp unknown
    obtain ⟨node, present, inside⟩ :=
      hoists.faithful.closed other mark known different
    exact ⟨node, present, fun child uses => (inside child uses).2⟩
  · exact ⟨dependence, marked⟩

theorem invariant_of_mem
    (hoists : graph.Hoists start finish hoisted declaration last survey)
    {id : Nat} (member : id ∈ hoisted) :
    survey.dependence? id = some .invariant ∧
      ¬ graph.Reaches id declaration := by
  have marked := hoists.faithful.hoistable id
    ((hoists.mem_hoisted id).mp member)
  refine ⟨marked, fun path => ?_⟩
  have indexed := (hoists.faithful.marks id _ marked).mpr path
  cases indexed

/-- Values found inside the loop stay when the hoisted nodes are given. -/
theorem value_afterHoisting
    (hoists : graph.Hoists start finish hoisted declaration last survey)
    {meaning : Interpretation V} {iteration computedAt value : V} {id : Nat}
    (found : graph.value meaning (duringLoop declaration iteration) id =
      some value) :
    graph.value meaning
      (graph.afterHoisting meaning declaration hoisted iteration computedAt)
      id = some value := by
  refine valueWithin_of_consistent ?_ ?_ found
  · intro other result known
    by_cases equal : other = declaration
    · subst equal
      simpa [afterHoisting] using known
    · rw [duringLoop_eq_none_iff.mpr equal] at known
      cases known
  · intro other result known
    rw [afterHoisting] at known
    split at known
    · next equal =>
      subst equal
      exact ⟨0, by simpa [valueWithin] using known⟩
    · split at known
      · next member =>
        refine ⟨graph.size + 1, ?_⟩
        have same := value_duringLoop_of_invariant meaning
          (hoists.invariant_of_mem member).2 iteration computedAt
        exact same.trans known
      · cases known

end Hoists

/--
Hoisting preserves the results of a loop.  Under every interpretation, each
result has the same value at an iteration whether the hoisted nodes are
computed there or have the values of any other iteration.
-/
theorem hoist_preserves_results
    (acyclic : graph.Acyclic) {start finish : Nat} {hoisted : List Nat}
    {moved : OperationGraph}
    (succeeds : (graph.hoist ∅ start finish).1 = .ok (hoisted, moved)) :
    ∃ declaration last,
      graph.loopIndex start = .ok declaration ∧
      graph.node? finish = some last ∧
      ∀ (V : Type) (meaning : Interpretation V) (iteration computedAt : V),
        (∀ id ∈ hoisted, ∃ value,
          graph.value meaning (duringLoop declaration computedAt) id =
            some value) ∧
        ∀ position, position < last.arguments.length →
          ∃ result value,
            graph.argumentNode finish position = .ok (some result) ∧
            graph.value meaning (duringLoop declaration iteration) result =
              some value ∧
            graph.value meaning
              (graph.afterHoisting meaning declaration hoisted iteration
                computedAt) result = some value := by
  obtain ⟨declaration, last, survey, hoists⟩ :=
    exists_hoists_of_hoist succeeds
  refine ⟨declaration, last, hoists.driven, hoists.ends, ?_⟩
  intro V meaning iteration computedAt
  constructor
  · intro id member
    exact hoists.exists_value acyclic meaning computedAt
      (hoists.invariant_of_mem member).1
  · intro position inside
    obtain ⟨result, resolved, dependence, marked⟩ :=
      hoists.results position inside
    obtain ⟨value, found⟩ :=
      hoists.exists_value acyclic meaning iteration marked
    exact ⟨result, value, resolved, found,
      hoists.value_afterHoisting found⟩

/-- The loop of `x[i] * (a + b)`, whose sum is the node 5. -/
def productLoop : OperationGraph where
  nodes := #[
    { kind := .indexDeclaration, info := [], arguments := [],
      name := some "it" },
    { kind := .index, info := [], arguments := [.node 0] },
    { kind := .loopIndexedIndependent, info := [0, 0],
      arguments := [.node 1] },
    { kind := .independent, info := [10], arguments := [] },
    { kind := .independent, info := [11], arguments := [] },
    { kind := .add, info := [], arguments := [.node 3, .node 4] },
    { kind := .multiply, info := [], arguments := [.node 2, .node 5] },
    { kind := .loopStart, info := [6], arguments := [.node 0] },
    { kind := .loopEnd, info := [7], arguments := [.node 6] }]

/-- A reading of sums and products that lets the independents of the loop
count from its iteration. -/
def productMeaning : Interpretation Int where
  constant _ := 0
  operation _ kind info arguments :=
    match kind, arguments with
    | .add, [left, right] => left + right
    | .multiply, [left, right] => left * right
    | .independent, _ => info.headD 0
    | _, inputs => inputs.headD 0

theorem productLoop_acyclic : productLoop.Acyclic :=
  acyclic_of_earlier (by decide)

/-- At iteration 3 the product is `3 * 21`, with the sum of any iteration. -/
theorem hoist_preserves_product :
    productLoop.Acyclic ∧
    (productLoop.hoist ∅ 7 8).1 =
      .ok ([5], productLoop.passToLoop 7 [5]) ∧
    productLoop.value productMeaning (duringLoop 0 3) 6 = some 63 ∧
    productLoop.value productMeaning
      (productLoop.afterHoisting productMeaning 0 [5] 3 8) 6 = some 63 := by
  have succeeds : (productLoop.hoist ∅ 7 8).1 =
      .ok ([5], productLoop.passToLoop 7 [5]) := rfl
  refine ⟨productLoop_acyclic, succeeds, by decide, ?_⟩
  obtain ⟨declaration, last, driven, ends, preserved⟩ :=
    hoist_preserves_results productLoop_acyclic succeeds
  cases driven
  cases ends
  obtain ⟨_, results⟩ := preserved Int productMeaning 3 8
  obtain ⟨result, value, resolved, found, kept⟩ := results 0 (by decide)
  cases resolved
  have expected : productLoop.value productMeaning (duringLoop 0 3) 6 =
      some 63 := by decide
  rw [expected] at found
  rw [kept, ← found]

end OperationGraph

end SparseLoop
