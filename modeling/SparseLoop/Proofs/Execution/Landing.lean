import Mathlib.Algebra.BigOperators.Group.List.Basic
import SparseLoop.Proofs.Routine.Invocation

/-!
# Contributions to the result

What the functions of a description provide is a list of contributions, each a
position of the result and a value.  `landing` is the sum of the values that
land at a position.

A row contributes the value of each of its elements at all positions of the
element.  A key contributes the value of each of its elements that has a single
position, at this position.
-/

namespace SparseLoop

/-! ## Recorded positions of one element -/

namespace Locations

variable {locations : Locations} {key element position : Nat}

/-- The recorded positions of an element of a row or key. -/
def targets (locations : Locations) (key element : Nat) : List Nat :=
  match locations.get? key with
  | none => []
  | some positions => (positions[element]?.getD ∅).toList

/-- The single position of an element of a row or key, if it has one. -/
def single? (locations : Locations) (key element : Nat) : Option Nat :=
  (locations.get? key).bind (position? · element)

theorem single?_eq_some_iff :
    locations.single? key element = some position ↔
      locations.At key element position := by
  rw [single?, Option.bind_eq_some_iff]
  rfl

theorem At.targets_eq (located : locations.At key element position) :
    locations.targets key element = [position] := by
  obtain ⟨positions, recorded, single⟩ := located
  obtain ⟨members, present, alone⟩ := position?_eq_some_iff.mp single
  rw [targets, recorded]
  simp [present, alone]

/-- Every recorded position lies below a bound. -/
def Below (locations : Locations) (bound : Nat) : Prop :=
  ∀ entry ∈ locations.entries, ∀ targets ∈ entry.2,
    ∀ position ∈ targets.toList, position < bound

instance (locations : Locations) (bound : Nat) :
    Decidable (locations.Below bound) :=
  inferInstanceAs (Decidable (∀ entry ∈ locations.entries,
    ∀ targets ∈ entry.2, ∀ position ∈ targets.toList, position < bound))

theorem Below.target_lt {bound : Nat} (below : locations.Below bound)
    (member : position ∈ locations.targets key element) :
    position < bound := by
  rw [targets] at member
  split at member
  · cases member
  · next positions recorded =>
    cases present : positions[element]? with
    | none =>
      rw [present] at member
      cases member
    | some targets =>
      rw [present] at member
      exact below _ (IndexMap.get?_eq_some_iff.mp recorded) targets
        (List.mem_of_getElem? present) position member

theorem Below.position_lt {bound : Nat} (below : locations.Below bound)
    (located : locations.At key element position) : position < bound := by
  have only : position ∈ locations.targets key element := by
    rw [located.targets_eq]
    exact List.mem_singleton_self position
  exact below.target_lt only

end Locations

/-! ## What lands at a position -/

section Landing

variable {V : Type} [AddCommMonoid V] {position : Nat}
  {pairs others : List (Nat × V)}

/-- The sum of the values that land at a position. -/
def landing (position : Nat) (pairs : List (Nat × V)) : V :=
  ((pairs.filter (·.1 == position)).map (·.2)).sum

@[simp]
theorem landing_nil (position : Nat) :
    landing position ([] : List (Nat × V)) = 0 :=
  rfl

theorem landing_cons (position index : Nat) (value : V)
    (rest : List (Nat × V)) :
    landing position ((index, value) :: rest) =
      (if index = position then value else 0) + landing position rest := by
  rw [landing, List.filter_cons]
  by_cases same : index = position
  · simp [same, landing]
  · simp [same, landing]

@[simp]
theorem landing_append (position : Nat) (first second : List (Nat × V)) :
    landing position (first ++ second) =
      landing position first + landing position second := by
  rw [landing, List.filter_append, List.map_append, List.sum_append]
  rfl

theorem landing_split (position : Nat) (first : Nat × V)
    (rest : List (Nat × V)) :
    landing position (first :: rest) =
      landing position [first] + landing position rest :=
  landing_append position [first] rest

theorem landing_perm (permuted : pairs.Perm others) :
    landing position pairs = landing position others :=
  ((permuted.filter _).map _).sum_eq

/-- Nothing lands where no contribution goes. -/
theorem landing_eq_zero (absent : ∀ pair ∈ pairs, pair.1 ≠ position) :
    landing position pairs = 0 := by
  have none : pairs.filter (·.1 == position) = [] := by
    rw [List.filter_eq_nil_iff]
    intro pair member same
    exact absent pair member (eq_of_beq same)
  rw [landing, none, List.map_nil, List.sum_nil]

/-- Of contributions to different positions one alone lands at its own. -/
theorem landing_of_mem (distinct : (pairs.map (·.1)).Nodup) {value : V}
    (member : (position, value) ∈ pairs) :
    landing position pairs = value := by
  induction pairs with
  | nil => cases member
  | cons first rest ih =>
    obtain ⟨index, stored⟩ := first
    rw [List.map_cons, List.nodup_cons] at distinct
    obtain ⟨fresh, distinct⟩ := distinct
    rw [landing_cons]
    rcases List.mem_cons.mp member with equal | later
    · cases equal
      rw [if_pos rfl, landing_eq_zero, add_zero]
      rintro pair among same
      exact fresh (List.mem_map.mpr ⟨pair, among, same⟩)
    · have different : index ≠ position := fun same =>
        fresh (List.mem_map.mpr ⟨_, later, same.symm⟩)
      rw [if_neg different, zero_add, ih distinct later]

end Landing

/-! ## The contributions of a description -/

namespace Sparsity

variable {V : Type}

/-- The contributions of a row. -/
def rowContributions (sparsity : Sparsity) (rowValue : Nat → Nat → V)
    (row : Nat) (provided : IndexSet) : List (Nat × V) :=
  provided.toList.flatMap fun element =>
    (sparsity.locations.targets row element).map fun position =>
      (position, rowValue row element)

/-- The contributions of a key of a group. -/
def keyContributions (sparsity : Sparsity)
    (keyValue : Nat → Nat → Nat → Nat → V) (served : GroupKey) :
    List (Nat × V) :=
  served.provided.toList.flatMap fun element =>
    (sparsity.locations.single? served.key element).toList.map
      fun position =>
        (position, keyValue served.loop served.group served.key element)

/-- The contributions of all rows with a function. -/
def allRowContributions (sparsity : Sparsity)
    (rowValue : Nat → Nat → V) : List (Nat × V) :=
  sparsity.rowElements.entries.flatMap fun (row, provided) =>
    sparsity.rowContributions rowValue row provided

/-- The contributions of all keys of all groups. -/
def allKeyContributions (sparsity : Sparsity)
    (keyValue : Nat → Nat → Nat → Nat → V) : List (Nat × V) :=
  sparsity.groupKeys.flatMap (sparsity.keyContributions keyValue)

/-- Different elements of rows with functions have no position in common. -/
def RowsApart (sparsity : Sparsity) : Prop :=
  ∀ entry ∈ sparsity.rowElements.entries,
  ∀ other ∈ sparsity.rowElements.entries,
  ∀ element ∈ entry.2.toList, ∀ another ∈ other.2.toList,
  ∀ position ∈ sparsity.locations.targets entry.1 element,
    position ∈ sparsity.locations.targets other.1 another →
      entry.1 = other.1 ∧ element = another

instance (sparsity : Sparsity) : Decidable sparsity.RowsApart :=
  inferInstanceAs (Decidable (∀ entry ∈ sparsity.rowElements.entries,
    ∀ other ∈ sparsity.rowElements.entries,
    ∀ element ∈ entry.2.toList, ∀ another ∈ other.2.toList,
    ∀ position ∈ sparsity.locations.targets entry.1 element,
      position ∈ sparsity.locations.targets other.1 another →
        entry.1 = other.1 ∧ element = another))

theorem mem_rowContributions {sparsity : Sparsity}
    {rowValue : Nat → Nat → V} {row : Nat} {provided : IndexSet}
    {pair : Nat × V}
    (member : pair ∈ sparsity.rowContributions rowValue row provided) :
    ∃ element ∈ provided,
      pair.1 ∈ sparsity.locations.targets row element := by
  obtain ⟨element, inside, among⟩ := List.mem_flatMap.mp member
  obtain ⟨position, recorded, rfl⟩ := List.mem_map.mp among
  exact ⟨element, inside, recorded⟩

/-- Nothing of a row lands at the positions of another row. -/
theorem RowsApart.landing_eq_zero [AddCommMonoid V] {sparsity : Sparsity}
    (apart : sparsity.RowsApart) {rowValue : Nat → Nat → V}
    {entry other : Nat × IndexSet}
    (stored : entry ∈ sparsity.rowElements.entries)
    (present : other ∈ sparsity.rowElements.entries)
    (different : entry.1 ≠ other.1) {element position : Nat}
    (inside : element ∈ other.2)
    (recorded : position ∈ sparsity.locations.targets other.1 element) :
    landing position (sparsity.rowContributions rowValue entry.1 entry.2) =
      0 := by
  refine SparseLoop.landing_eq_zero fun pair among same => different ?_
  obtain ⟨another, provided, shared⟩ := mem_rowContributions among
  rw [same] at shared
  exact (apart _ stored _ present another provided element inside position
    shared recorded).1

end Sparsity

/-! ## Contributions behind a start -/

section Behind

variable {V : Type}

/-- What a function provides, at its places behind an offset. -/
def behind (offset : Nat) (provided : List (Nat × V)) : List (Nat × V) :=
  provided.map fun (place, value) => (offset + place, value)

theorem behind_zero (provided : List (Nat × V)) :
    behind 0 provided = provided := by
  simp [behind]

theorem landing_behind_perm [AddCommMonoid V] {offset position : Nat}
    {pairs others : List (Nat × V)} (permuted : pairs.Perm others) :
    landing position (behind offset pairs) =
      landing position (behind offset others) :=
  landing_perm (permuted.map _)

/-- Different places lie at different positions behind an offset. -/
theorem nodup_behind {offset : Nat} {pairs : List (Nat × V)}
    (distinct : (pairs.map (·.1)).Nodup) :
    ((behind offset pairs).map (·.1)).Nodup := by
  rw [behind, List.map_map]
  have places : (fun pair : Nat × V => pair.1) ∘
      (fun (place, value) => (offset + place, value)) =
        (offset + ·) ∘ fun pair : Nat × V => pair.1 := rfl
  rw [places, ← List.map_map]
  exact distinct.map fun _ _ => Nat.add_left_cancel

variable {sparsity : Sparsity} {provided : IndexSet} {start : Nat}

/-- Values that are provided for some elements, in any order. -/
theorem provided_of_perm {value : Nat → V}
    {pairs : List (Nat × V)}
    (permuted : pairs.Perm
      (provided.toList.map fun element => (element, value element))) :
    (pairs.map (·.1)).Nodup ∧
      (∀ pair ∈ pairs, pair.1 ∈ provided) ∧
      ∀ element ∈ provided, (element, value element) ∈ pairs := by
  have places : (pairs.map (·.1)).Perm provided.toList := by
    have mapped := permuted.map (·.1)
    rw [List.map_map] at mapped
    exact mapped.trans (List.Perm.of_eq (List.map_id _))
  refine ⟨places.nodup_iff.mpr provided.nodup_toList, ?_, ?_⟩
  · intro pair member
    exact places.mem_iff.mp (List.mem_map_of_mem member)
  · intro element member
    exact permuted.mem_iff.mpr (List.mem_map_of_mem member)

/-- The contributions of a row whose elements lie one after the other. -/
theorem Sparsity.rowContributions_eq_behind
    {rowValue : Nat → Nat → V} {row : Nat}
    (consecutive :
      sparsity.locations.ConsecutiveFrom row provided start) :
    sparsity.rowContributions rowValue row provided =
      behind start (provided.toList.map fun element =>
        (element, rowValue row element)) := by
  rw [rowContributions, behind, List.map_map, List.map_eq_flatMap]
  refine List.flatMap_congr fun element member => ?_
  rw [(consecutive.elements element member).targets_eq]
  rfl

/-- The contributions of a key whose elements lie one after the other. -/
theorem Sparsity.keyContributions_eq_behind
    {keyValue : Nat → Nat → Nat → Nat → V} {served : GroupKey}
    (consecutive : sparsity.locations.ConsecutiveFrom served.key
      served.provided start) :
    sparsity.keyContributions keyValue served =
      behind start (served.provided.toList.map fun element =>
        (element,
          keyValue served.loop served.group served.key element)) := by
  rw [keyContributions, behind, List.map_map, List.map_eq_flatMap]
  refine List.flatMap_congr fun element member => ?_
  rw [Locations.single?_eq_some_iff.mpr
    (consecutive.elements element member)]
  rfl

/-- The contributions of a row whose elements are copied to all their
positions. -/
theorem Sparsity.rowContributions_eq_copies
    {rowValue : Nat → Nat → V} {row : Nat} {positions : List IndexSet}
    (recorded : sparsity.locations.get? row = some positions) :
    sparsity.rowContributions rowValue row provided =
      (provided.toList.flatMap fun element =>
        (positions[element]?.getD ∅).toList.map fun target =>
          (target, element)).map
        fun (target, source) => (target, rowValue row source) := by
  rw [rowContributions, List.map_flatMap]
  refine List.flatMap_congr fun element _ => ?_
  rw [Locations.targets, recorded, List.map_map]
  rfl

/-- The contributions of a key whose elements are copied to their single
positions. -/
theorem Sparsity.keyContributions_eq_copies
    {keyValue : Nat → Nat → Nat → Nat → V} {served : GroupKey}
    {pairs : List (Nat × Nat)}
    (related : List.Forall₂ (fun element pair => pair.2 = element ∧
      sparsity.locations.At served.key element pair.1)
      served.provided.toList pairs) :
    sparsity.keyContributions keyValue served =
      pairs.map fun (target, source) =>
        (target, keyValue served.loop served.group served.key source) := by
  rw [keyContributions]
  generalize served.provided.toList = elements at related ⊢
  induction related with
  | nil => rfl
  | cons first _ ih =>
    obtain ⟨rfl, located⟩ := first
    rw [List.flatMap_cons, ih, Locations.single?_eq_some_iff.mpr located]
    rfl

end Behind

end SparseLoop
