import SparseLoop.Proofs.Sparsity.Plan

/-!
# Verification of order flags

A key that is flagged as ordered promises that its elements lie one after the
other behind the position of element zero.  Grouping computes the starts of a
group only if every key of it is flagged as ordered, and it checks the promise
nowhere else.  So the flags of a group are verified together or not at all.

In a group whose keys are all flagged as ordered, a success of grouping says
that every key keeps its promise.  One key flagged as not ordered suspends the
check for the whole group: from then on the flags of the other keys have no
influence on what grouping does.
-/

namespace SparseLoop

open Traversal

/-! ## The promise of a flag -/

namespace Locations

variable {locations : Locations} {positions : List IndexSet}
  {key origin : Nat} {provided : IndexSet}

/-- The elements provided for a key lie where an order flag promises them: each
at the sum, as a word, of the position of element zero and its own number. -/
def InOrder (locations : Locations) (key : Nat) (provided : IndexSet) :
    Prop :=
  ∃ origin, locations.At key 0 origin ∧
    ∀ element ∈ provided,
      locations.At key element ((origin + element) % 2 ^ 64)

/-- The elements provided for a key lie one after the other. -/
def Consecutive (locations : Locations) (key : Nat) (provided : IndexSet) :
    Prop :=
  ∃ origin, locations.ConsecutiveFrom key provided origin

theorem start_of_at (located : locations.At key 0 origin) :
    locations.start key = .ok origin := by
  obtain ⟨positions, recorded, single⟩ := located
  obtain ⟨first, present, alone⟩ := position?_eq_some_iff.mp single
  obtain ⟨rest, listed⟩ : ∃ rest, positions = first :: rest := by
    cases positions with
    | nil => simp at present
    | cons head rest =>
      rw [List.getElem?_cons_zero, Option.some.injEq] at present
      exact ⟨rest, by rw [present]⟩
  simp only [start, find_eq_ok_iff.mpr recorded, listed, bind, Except.bind,
    alone]
  rfl

theorem orderedStart_eq_ok_iff :
    locations.orderedStart key provided = .ok origin ↔
      locations.At key 0 origin ∧
        ∀ element ∈ provided,
          locations.At key element ((origin + element) % 2 ^ 64) := by
  refine ⟨orderedStart_eq_ok, fun ⟨located, placed⟩ => ?_⟩
  have started := start_of_at located
  obtain ⟨positions, recorded, _⟩ := located
  have inOrder : provided.toList.find? (fun element =>
      position? positions element != some (place origin element)) = none := by
    rw [List.find?_eq_none]
    intro element member
    obtain ⟨_, again, single⟩ := placed element member
    rw [recorded] at again
    cases again
    simp [place, single]
  simp only [orderedStart, find_eq_ok_iff.mpr recorded, bind, Except.bind,
    started, inOrder]
  rfl

/-- The start of a key is found exactly if its elements lie in order. -/
theorem inOrder_iff_orderedStart :
    locations.InOrder key provided ↔
      ∃ origin, locations.orderedStart key provided = .ok origin := by
  simp only [InOrder, orderedStart_eq_ok_iff]

theorem Consecutive.inOrder_of_sum_lt
    (small : ∀ origin, locations.At key 0 origin → ∀ element ∈ provided,
      locations.At key element (origin + element) → origin + element < 2 ^ 64)
    (consecutive : locations.Consecutive key provided) :
    locations.InOrder key provided := by
  obtain ⟨origin, first, placed⟩ := consecutive
  refine ⟨origin, first, fun element member => ?_⟩
  have here := placed element member
  rwa [Nat.mod_eq_of_lt (small origin first element member here)]

/-- Where the sums fit, order means that the elements lie one after the
other. -/
theorem SumsFit.inOrder_iff (fits : locations.SumsFit key provided) :
    locations.InOrder key provided ↔ locations.Consecutive key provided := by
  constructor
  · intro inOrder
    obtain ⟨origin, found⟩ := inOrder_iff_orderedStart.mp inOrder
    exact ⟨origin, fits.consecutiveFrom found⟩
  · exact Consecutive.inOrder_of_sum_lt fun origin first element member _ =>
      fits origin first element member

/-- Below half of the words, all sums fit. -/
theorem Within.sumsFit (within : locations.Within (2 ^ 63))
    (small : ∀ element ∈ provided, element < 2 ^ 63) :
    locations.SumsFit key provided := by
  intro origin first element member
  have originSmall := first.position_lt within
  have elementSmall := small element member
  omega

/-- Below half of the words, order means that the elements lie one after the
other. -/
theorem Within.inOrder_iff (within : locations.Within (2 ^ 63)) :
    locations.InOrder key provided ↔ locations.Consecutive key provided := by
  constructor
  · intro inOrder
    obtain ⟨origin, found⟩ := inOrder_iff_orderedStart.mp inOrder
    exact ⟨origin, within.consecutiveFrom found⟩
  · exact Consecutive.inOrder_of_sum_lt fun origin _ element _ located =>
      Nat.lt_trans (located.position_lt within) (by decide)

end Locations

theorem Sparsity.isOrdered_eq_ok_iff {sparsity : Sparsity} {key : Nat}
    {flag : Bool} :
    sparsity.isOrdered key = .ok flag ↔
      sparsity.ordered.get? key = some flag := by
  rw [isOrdered]
  split <;> simp_all

/-- The starts of a group are found exactly if every key keeps the promise of
its flag. -/
theorem KeyElements.exists_starts_iff {elements : KeyElements}
    {locations : Locations} :
    (∃ starts, KeyElements.starts elements locations = .ok starts) ↔
      ∀ key provided, elements.get? key = some provided →
        locations.InOrder key provided := by
  simp only [KeyElements.starts, mapM_eq_ok_iff,
    Locations.inOrder_iff_orderedStart]
  constructor
  · rintro ⟨starts, related⟩ key provided stored
    obtain ⟨origin, _, found⟩ := exists_right_of_mem related
      (IndexMap.get?_eq_some_iff.mp stored)
    exact ⟨origin, found⟩
  · intro kept
    refine exists_forall₂ ?_
    rintro ⟨key, provided⟩ member
    exact kept key provided (IndexMap.get?_eq_some_iff.mpr member)

/-! ## The flags of a group -/

namespace LoopGroup

variable {group : LoopGroup} {sparsity : Sparsity} {detector : Detector}
  {access : GroupAccess}

/-- Every key of a group is flagged as ordered. -/
def AllFlagged (group : LoopGroup) (sparsity : Sparsity) : Prop :=
  ∀ key ∈ group.elements.keys, sparsity.ordered.get? key = some true

/-- Every key of a group has a flag, and some key is flagged as not ordered. -/
structure SomeUnflagged (group : LoopGroup) (ordered : IndexMap Bool) :
    Prop where
  flagged : ∀ key ∈ group.elements.keys,
    ∃ flag, ordered.get? key = some flag
  unordered : ∃ key ∈ group.elements.keys, ordered.get? key = some false

theorem mapM_isOrdered_eq_ok_iff {flags : List Bool} :
    group.elements.keyList.mapM sparsity.isOrdered = .ok flags ↔
      List.Forall₂ (fun key flag => sparsity.ordered.get? key = some flag)
        group.elements.keyList flags := by
  simp only [mapM_eq_ok_iff, Sparsity.isOrdered_eq_ok_iff]

theorem AllFlagged.all_flags (flagged : group.AllFlagged sparsity)
    {flags : List Bool}
    (read : group.elements.keyList.mapM sparsity.isOrdered = .ok flags) :
    flags.all id = true := by
  rw [List.all_eq_true]
  intro flag member
  obtain ⟨key, present, found⟩ :=
    exists_left_of_mem (mapM_isOrdered_eq_ok_iff.mp read) member
  rw [flagged key present, Option.some.injEq] at found
  exact found.symm

/-- If one flag of a group says that a key is not ordered, then not all flags
say that their keys are. -/
theorem SomeUnflagged.exists_flags
    (mixed : group.SomeUnflagged sparsity.ordered) :
    ∃ flags, group.elements.keyList.mapM sparsity.isOrdered = .ok flags ∧
      flags.all id = false := by
  obtain ⟨flags, related⟩ := exists_forall₂ mixed.flagged
  refine ⟨flags, mapM_isOrdered_eq_ok_iff.mpr related, ?_⟩
  obtain ⟨key, present, unordered⟩ := mixed.unordered
  obtain ⟨flag, member, found⟩ := exists_right_of_mem related present
  rw [unordered, Option.some.injEq] at found
  rw [List.all_eq_false]
  exact ⟨flag, member, by simp [← found]⟩

/-- Grouping reads all flags, and finds all starts if no flag forbids it. -/
theorem flags_of_access_eq_ok
    (found : group.access sparsity detector = .ok access) :
    ∃ flags, group.elements.keyList.mapM sparsity.isOrdered = .ok flags ∧
      (flags.all id = true → ∃ starts,
        KeyElements.starts group.elements sparsity.locations =
          .ok starts) := by
  rw [LoopGroup.access] at found
  dsimp only at found
  split at found
  · cases found
  rw [bind_eq_ok_iff] at found
  obtain ⟨flags, read, found⟩ := found
  refine ⟨flags, read, fun allOrdered => ?_⟩
  rw [if_pos allOrdered, bind_eq_ok_iff] at found
  obtain ⟨_, started, _⟩ := found
  obtain ⟨starts, visited, _⟩ := map_eq_ok_iff.mp started
  exact ⟨starts, visited⟩

theorem allFlagged_or_someUnflagged {flags : List Bool}
    (read : group.elements.keyList.mapM sparsity.isOrdered = .ok flags) :
    flags.all id = true ∧ group.AllFlagged sparsity ∨
      group.SomeUnflagged sparsity.ordered := by
  have related := mapM_isOrdered_eq_ok_iff.mp read
  cases promised : flags.all id with
  | true =>
    refine .inl ⟨rfl, fun key present => ?_⟩
    obtain ⟨flag, member, found⟩ := exists_right_of_mem related present
    have isSet : flag = true := List.all_eq_true.mp promised flag member
    rw [found, isSet]
  | false =>
    obtain ⟨flag, member, refuses⟩ := List.all_eq_false.mp promised
    have isUnset : flag = false := Bool.eq_false_iff.mpr refuses
    obtain ⟨key, present, found⟩ := exists_left_of_mem related member
    refine .inr ⟨fun other among => ?_, key, present, ?_⟩
    · obtain ⟨its, _, flagged⟩ := exists_right_of_mem related among
      exact ⟨its, flagged⟩
    · rw [found, isUnset]

/-- In a group without a key flagged as not ordered, success means that every
key keeps the promise of its flag. -/
theorem inOrder_of_access_eq_ok
    (found : group.access sparsity detector = .ok access)
    (flagged : group.AllFlagged sparsity) :
    ∀ key provided, group.elements.get? key = some provided →
      sparsity.locations.InOrder key provided := by
  obtain ⟨flags, read, started⟩ := flags_of_access_eq_ok found
  exact KeyElements.exists_starts_iff.mp (started (flagged.all_flags read))

/-- With some key flagged as not ordered, all keys of a group are put into
buckets, whatever the other flags say. -/
theorem access_of_someUnflagged
    (mixed : group.SomeUnflagged sparsity.ordered) :
    group.access sparsity detector =
      GroupAccess.mk group.elements.keyList
          (detector.ofSequence group.elements.keyList) none <$>
        KeyElements.buckets group.elements sparsity.locations detector := by
  obtain ⟨flags, read, notAll⟩ := mixed.exists_flags
  obtain ⟨key, present, _⟩ := mixed.unordered
  have occupied : ¬ group.elements.keyList.isEmpty = true := fun empty =>
    List.ne_nil_of_mem present (List.isEmpty_iff.mp empty)
  rw [LoopGroup.access]
  dsimp only
  rw [if_neg occupied, read]
  show (if flags.all id then _ else _) = _
  rw [notAll, map_eq_pure_bind]
  rfl

/-- Only a group whose keys are all flagged as ordered writes in place. -/
theorem allFlagged_of_access
    (found : group.access sparsity detector = .ok access)
    {start : IndexPattern} (placed : access.start = some start) :
    group.AllFlagged sparsity := by
  obtain ⟨flags, read, _⟩ := flags_of_access_eq_ok found
  rcases allFlagged_or_someUnflagged read with ⟨_, flagged⟩ | mixed
  · exact flagged
  · rw [access_of_someUnflagged mixed, map_eq_ok_iff] at found
    obtain ⟨buckets, _, made⟩ := found
    rw [← made] at placed
    cases placed

end LoopGroup

/-! ## The flags of a description -/

namespace Sparsity

variable {sparsity : Sparsity} {detector : Detector} {plan : CallPlan}

/-- The order of a key is verified: the key is in a group whose keys are all
flagged as ordered. -/
def Verifies (sparsity : Sparsity) (key : Nat) (provided : IndexSet) : Prop :=
  ∃ group ∈ sparsity.groups, group.AllFlagged sparsity ∧
    group.elements.get? key = some provided

/-- No sum that is formed to verify a flag leaves the words. -/
structure SumsFit (sparsity : Sparsity) : Prop where
  rows : ∀ row provided, sparsity.rowElements.get? row = some provided →
    sparsity.ordered.get? row = some true →
    sparsity.locations.SumsFit row provided
  keys : ∀ key provided, sparsity.Verifies key provided →
    sparsity.locations.SumsFit key provided

theorem SumsFit.of_within (within : sparsity.locations.Within (2 ^ 63))
    (rows : ∀ entry ∈ sparsity.rowElements.entries,
      ∀ element ∈ entry.2, element < 2 ^ 63)
    (keys : ∀ group ∈ sparsity.groups, ∀ entry ∈ group.elements.entries,
      ∀ element ∈ entry.2, element < 2 ^ 63) : sparsity.SumsFit where
  rows row provided stored _ :=
    within.sumsFit (rows (row, provided) (IndexMap.get?_eq_some_iff.mp stored))
  keys key provided := by
    rintro ⟨group, member, _, stored⟩
    exact within.sumsFit (keys group member (key, provided)
      (IndexMap.get?_eq_some_iff.mp stored))

theorem exists_access_of_callPlan
    (planned : sparsity.callPlan detector = .ok plan) {group : LoopGroup}
    (member : group ∈ sparsity.groups) :
    ∃ access, group.access sparsity detector = .ok access := by
  obtain ⟨accesses, related, _⟩ := callPlan_eq_ok planned
  obtain ⟨access, _, made⟩ := exists_right_of_mem related member
  exact ⟨access, made⟩

/-- A key flagged as ordered is verified exactly if no other key of its group
is flagged as not ordered: a success of grouping then says that the key keeps
the promise of its flag, and a broken promise makes grouping fail.  The promise
is that the elements of the key lie one after the other, unless a sum leaves the
words.  Where a key is flagged as not ordered, the flags of the others make no
difference. -/
theorem order_verified_in_uniform_groups (sparsity : Sparsity)
    (detector : Detector) :
    (∀ plan, sparsity.callPlan detector = .ok plan →
      ∀ group ∈ sparsity.groups, ∀ key provided,
        group.elements.get? key = some provided →
        sparsity.ordered.get? key = some true →
        (∀ other ∈ group.elements.keys,
          sparsity.ordered.get? other ≠ some false) →
        sparsity.locations.InOrder key provided) ∧
    (∀ group ∈ sparsity.groups, ∀ key provided,
      group.elements.get? key = some provided →
      ¬ sparsity.locations.InOrder key provided →
      (∀ other ∈ group.elements.keys,
        sparsity.ordered.get? other ≠ some false) →
      ∃ failure, sparsity.callPlan detector = .error failure) ∧
    (∀ key provided, sparsity.locations.SumsFit key provided →
      (sparsity.locations.InOrder key provided ↔
        sparsity.locations.Consecutive key provided)) ∧
    ∀ group ∈ sparsity.groups, ∀ flags : IndexMap Bool,
      group.SomeUnflagged sparsity.ordered → group.SomeUnflagged flags →
      group.access { sparsity with ordered := flags } detector =
        group.access sparsity detector := by
  have verified : ∀ plan, sparsity.callPlan detector = .ok plan →
      ∀ group ∈ sparsity.groups,
        (∀ other ∈ group.elements.keys,
          sparsity.ordered.get? other ≠ some false) →
        ∀ key provided, group.elements.get? key = some provided →
          sparsity.locations.InOrder key provided := by
    intro plan planned group member uniform
    obtain ⟨access, found⟩ := exists_access_of_callPlan planned member
    refine LoopGroup.inOrder_of_access_eq_ok found fun other present => ?_
    obtain ⟨flags, read, _⟩ := LoopGroup.flags_of_access_eq_ok found
    obtain ⟨flag, _, flagged⟩ := exists_right_of_mem
      (LoopGroup.mapM_isOrdered_eq_ok_iff.mp read) present
    cases flag with
    | false => exact absurd flagged (uniform other present)
    | true => exact flagged
  refine ⟨?_, ?_, fun _ _ fits => fits.inOrder_iff, ?_⟩
  · intro plan planned group member key provided stored _ uniform
    exact verified plan planned group member uniform key provided stored
  · intro group member key provided stored broken uniform
    cases planned : sparsity.callPlan detector with
    | error failure => exact ⟨failure, rfl⟩
    | ok plan =>
      exact absurd
        (verified plan planned group member uniform key provided stored)
        broken
  · intro group _ flags mixed otherMixed
    have reflagged : group.SomeUnflagged
        ({ sparsity with ordered := flags } : Sparsity).ordered := otherMixed
    rw [LoopGroup.access_of_someUnflagged mixed,
      LoopGroup.access_of_someUnflagged reflagged]

/-- One group with two keys, where element one of key zero lies at a given
position and element zero at position four. -/
def twoKeys (position : Nat) (first second : Bool) : Sparsity where
  loopGroups := IndexMap.ofList
    [(0, IndexMap.ofList
      [(0, IndexMap.ofList
        [(0, IndexSet.ofList [0, 1]), (1, IndexSet.ofList [0])])])]
  locations := IndexMap.ofList
    [ (0, [IndexSet.ofList [4], IndexSet.ofList [position]]),
      (1, [IndexSet.ofList [2]]) ]
  ordered := IndexMap.ofList [(0, first), (1, second)]
  entryCount := 10

/-- The only group of the two keys. -/
def twoKeysGroup : LoopGroup where
  loop := 0
  group := 0
  elements := IndexMap.ofList
    [(0, IndexSet.ofList [0, 1]), (1, IndexSet.ofList [0])]

theorem twoKeys_broken (first second : Bool) :
    ¬ (twoKeys 9 first second).locations.InOrder 0
      (IndexSet.ofList [0, 1]) := by
  have refused : (twoKeys 9 first second).locations.orderedStart 0
      (IndexSet.ofList [0, 1]) = .error (.unorderedArray 0 1) := rfl
  rw [Locations.inOrder_iff_orderedStart, refused]
  rintro ⟨_, found⟩
  cases found

/-- With both keys flagged as ordered the flags are verified, and with key one
flagged as not ordered the flag of key zero does not matter. -/
theorem twoKeys_verified :
    (∃ plan, (twoKeys 5 true true).callPlan Detector.affine = .ok plan ∧
      (twoKeys 5 true true).locations.Consecutive 0
        (IndexSet.ofList [0, 1])) ∧
    (∃ failure, (twoKeys 9 true true).callPlan Detector.affine =
      .error failure) ∧
    twoKeysGroup.access (twoKeys 9 true false) Detector.affine =
      twoKeysGroup.access (twoKeys 9 false false) Detector.affine := by
  refine ⟨?_, ?_, ?_⟩
  · obtain ⟨plan, planned⟩ : ∃ plan,
        (twoKeys 5 true true).callPlan Detector.affine = .ok plan :=
      exists_of_isOk rfl
    obtain ⟨verified, _, consecutive, _⟩ :=
      order_verified_in_uniform_groups (twoKeys 5 true true) Detector.affine
    have fits : (twoKeys 5 true true).locations.SumsFit 0
        (IndexSet.ofList [0, 1]) :=
      (Locations.within_of_entries (by decide)).sumsFit (by decide)
    exact ⟨plan, planned, (consecutive 0 _ fits).mp <|
      verified plan planned twoKeysGroup (by decide) 0 _ rfl rfl (by decide)⟩
  · exact (order_verified_in_uniform_groups _ _).2.1 twoKeysGroup (by decide)
      0 _ rfl (twoKeys_broken true true) (by decide)
  · refine ((order_verified_in_uniform_groups (twoKeys 9 false false)
      Detector.affine).2.2.2 twoKeysGroup (by decide)
      (twoKeys 9 true false).ordered ⟨?_, ?_⟩ ⟨?_, ?_⟩)
    · decide
    · exact ⟨1, by decide, rfl⟩
    · decide
    · exact ⟨1, by decide, rfl⟩

/-- A key flagged as ordered passes unverified because another key of its
group is flagged as not ordered. -/
theorem brokenFlag_passes_in_mixed_group :
    ∃ plan, (twoKeys 9 true false).callPlan Detector.affine = .ok plan ∧
      twoKeysGroup ∈ (twoKeys 9 true false).groups ∧
      twoKeysGroup.elements.get? 0 = some (IndexSet.ofList [0, 1]) ∧
      (twoKeys 9 true false).ordered.get? 0 = some true ∧
      ¬ (twoKeys 9 true false).locations.InOrder 0
        (IndexSet.ofList [0, 1]) := by
  obtain ⟨plan, planned⟩ : ∃ plan,
      (twoKeys 9 true false).callPlan Detector.affine = .ok plan :=
    exists_of_isOk rfl
  exact ⟨plan, planned, by decide, rfl, rfl, twoKeys_broken true false⟩

end Sparsity

end SparseLoop
