import SparseLoop.Branch.Skeleton
import SparseLoop.Proofs.Index

/-!
# Shapes and the skeletons made from them

Where each branch of a shape is known by its first key, the branches determine
their names, so two shapes with the same branches in the same order are equal.

A skeleton whose bodies depend on the keys of their branches is the skeleton of
its shape with these bodies, `Skeleton.ofBodies`.  Changing the body of one
branch changes the bodies for its keys and leaves the shape as it is.
-/

namespace SparseLoop

/-- Each branch of a shape is known by its first key. -/
def BranchShape.KeyedByFirst (shape : BranchShape) : Prop :=
  ∀ first iterations, shape.get? first = some iterations →
    iterations.min? = some first

namespace BranchShape.KeyedByFirst

variable {shape other : BranchShape}

theorem iff_entries : shape.KeyedByFirst ↔
    ∀ entry ∈ shape.entries, entry.2.min? = some entry.1 := by
  constructor
  · intro keyed entry member
    exact keyed entry.1 entry.2 (IndexMap.get?_eq_some_iff.mpr member)
  · intro listed first iterations found
    exact listed (first, iterations) (IndexMap.get?_eq_some_iff.mp found)

instance : Decidable shape.KeyedByFirst :=
  decidable_of_iff' _ iff_entries

theorem entries_eq (keyed : shape.KeyedByFirst) :
    shape.entries = shape.values.map fun iterations =>
      (iterations.min?.getD 0, iterations) := by
  rw [IndexMap.values, List.map_map]
  conv_lhs => rw [← List.map_id shape.entries]
  refine List.map_congr_left ?_
  intro entry member
  simp [iff_entries.mp keyed entry member]

theorem inhabited (keyed : shape.KeyedByFirst) :
    ∀ iterations ∈ shape.values, ∃ iteration, iteration ∈ iterations := by
  intro iterations member
  rcases IndexMap.mem_values.mp member with ⟨first, found⟩
  exact ⟨first,
    (IndexSet.min?_eq_some_iff.mp (keyed first iterations found)).1⟩

/-- The branches in order determine the shape. -/
theorem eq_of_values (keyed : shape.KeyedByFirst) (others : other.KeyedByFirst)
    (same : shape.values = other.values) : shape = other := by
  apply IndexMap.ext
  rw [keyed.entries_eq, others.entries_eq, same]

end BranchShape.KeyedByFirst

namespace Skeleton

variable {α : Type}

/-- The keys of the branches of a skeleton. -/
def shape (skeleton : Skeleton α) : BranchShape :=
  skeleton.branches.mapValues (·.iterations)

theorem hasShape_iff {skeleton : Skeleton α} {shape : BranchShape} :
    skeleton.hasShape shape = true ↔
      skeleton.shape.values = shape.values := by
  rw [hasShape, beq_iff_eq, Skeleton.shape, IndexMap.values_mapValues]

section OfBodies

variable {shape : BranchShape} {keys : IndexSet} {bodies : IndexSet → α}
  {first : Nat}

/-- The skeleton of a shape whose branches hold what a function gives for
their keys. -/
def ofBodies (shape : BranchShape) (bodies : IndexSet → α) : Skeleton α where
  branches := shape.mapValues fun keys => ⟨keys, bodies keys⟩

@[simp]
theorem get?_ofBodies :
    (ofBodies shape bodies).branches.get? first =
      (shape.get? first).map fun keys => ⟨keys, bodies keys⟩ :=
  IndexMap.get?_mapValues

@[simp]
theorem values_ofBodies :
    (ofBodies shape bodies).branches.values =
      shape.values.map fun keys => ⟨keys, bodies keys⟩ :=
  IndexMap.values_mapValues

/-- Branches with equal bodies make equal skeletons. -/
theorem ofBodies_congr {others : IndexSet → α}
    (agree : ∀ first keys, shape.get? first = some keys →
      bodies keys = others keys) :
    ofBodies shape bodies = ofBodies shape others := by
  have branches : (ofBodies shape bodies).branches =
      (ofBodies shape others).branches := by
    apply IndexMap.ext_get?
    intro first
    rw [get?_ofBodies, get?_ofBodies]
    cases found : shape.get? first with
    | none => rfl
    | some keys => simp [agree first keys found]
  exact congrArg (fun branches => ({ branches } : Skeleton α)) branches

/-- The skeleton of a shape has another shape exactly if the shapes are the
same. -/
theorem hasShape_ofBodies_iff {other : BranchShape}
    (keyed : shape.KeyedByFirst) (others : other.KeyedByFirst) :
    (ofBodies shape bodies).hasShape other = true ↔ shape = other := by
  have same : (ofBodies shape bodies).shape.values = shape.values := by
    rw [Skeleton.shape, IndexMap.values_mapValues, values_ofBodies,
      List.map_map]
    exact List.map_id shape.values
  rw [hasShape_iff, same]
  exact ⟨keyed.eq_of_values others, fun equal => by rw [equal]⟩

/-- A change of the body of a branch changes the body for its keys. -/
theorem modifyBranch_ofBodies (change : α → α)
    (keyed : shape.KeyedByFirst) (found : shape.get? first = some keys) :
    (ofBodies shape bodies).modifyBranch first (fun branch =>
        { branch with body := change branch.body }) =
      .ok (ofBodies shape fun other =>
        if other = keys then change (bodies other) else bodies other) := by
  have located : (ofBodies shape bodies).branch first =
      .ok ⟨keys, bodies keys⟩ := by
    rw [branch, get?_ofBodies, found]
    rfl
  have branches : (ofBodies shape bodies).branches.insert first
      ⟨keys, change (bodies keys)⟩ =
        (ofBodies shape fun other =>
          if other = keys then change (bodies other)
          else bodies other).branches := by
    apply IndexMap.ext_get?
    intro second
    rw [IndexMap.get?_insert, get?_ofBodies, get?_ofBodies]
    by_cases same : second = first
    · rw [if_pos same, same, found]
      simp
    · rw [if_neg same]
      cases stored : shape.get? second with
      | none => rfl
      | some others =>
        have apart : others ≠ keys := by
          intro equal
          have least := keyed second others stored
          rw [equal, keyed first keys found, Option.some.injEq] at least
          exact same least.symm
        simp [apart]
  rw [modifyBranch, located]
  show Except.ok { ofBodies shape bodies with
    branches := (ofBodies shape bodies).branches.insert first
      ⟨keys, change (bodies keys)⟩ } = _
  rw [branches]
  rfl

end OfBodies

end Skeleton

end SparseLoop
