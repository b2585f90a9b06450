import SparseLoop.Proofs.Sparsity.Plan

/-!
# Grouping covers every element exactly once

The calls of a plan are the groups of the description, each once and under its
number of keys.  If the calls of a group write in place, then the pattern of
the starts puts every element where it belongs.  If they do not, then each key
lies in one bucket, and each of its elements is copied along one pair of
patterns, from its place in the scratch buffer to its only position.

All this holds for any detector that reproduces its points, whichever of them
it accepts.
-/

namespace SparseLoop

variable {sparsity : Sparsity} {detector : Detector} {plan : CallPlan}

namespace Sparsity

/-- The loops and groups of the calls are those of the description. -/
theorem calls_perm_groups (planned : sparsity.callPlan detector = .ok plan) :
    (plan.calls.map fun (_, loop, group, _) => (loop, group)).Perm
      (sparsity.groups.map fun group => (group.loop, group.group)) := by
  have distinct : (plan.calls.map
      fun (_, loop, group, _) => (loop, group)).Nodup := by
    refine List.Nodup.map_on ?_ plan.nodup_calls
    rintro ⟨count, loop, group, access⟩ first
      ⟨otherCount, otherLoop, otherGroup, other⟩ second equal
    cases equal
    obtain ⟨source, member, sameLoop, sameGroup, made, counted⟩ :=
      (mem_calls_callPlan planned).mp first
    obtain ⟨copy, among, copyLoop, copyGroup, again, recounted⟩ :=
      (mem_calls_callPlan planned).mp second
    have same : source = copy := by
      refine List.inj_on_of_nodup_map sparsity.groups_distinct member among ?_
      exact Prod.ext (sameLoop.trans copyLoop.symm)
        (sameGroup.trans copyGroup.symm)
    rw [← same, made] at again
    cases again
    rw [← counted, ← recounted]
  refine (List.perm_ext_iff_of_nodup distinct
    sparsity.groups_distinct).mpr ?_
  rintro ⟨loop, group⟩
  rw [List.mem_map, List.mem_map]
  constructor
  · rintro ⟨⟨count, _, _, access⟩, member, equal⟩
    cases equal
    obtain ⟨source, present, sameLoop, sameGroup, _⟩ :=
      (mem_calls_callPlan planned).mp member
    exact ⟨source, present, Prod.ext sameLoop sameGroup⟩
  · rintro ⟨source, present, equal⟩
    cases equal
    obtain ⟨accesses, related, _⟩ := callPlan_eq_ok planned
    obtain ⟨access, _, made⟩ :=
      Traversal.exists_right_of_mem related present
    exact ⟨(access.keys.length, source.loop, source.group, access),
      (mem_calls_callPlan planned).mpr
        ⟨source, present, rfl, rfl, made, rfl⟩, rfl⟩

end Sparsity

namespace GroupAccess

variable {access : GroupAccess} {elements : KeyElements}
  {locations : Locations}

/-- The iteration of a key in an access is the one of its entry. -/
theorem Serves.getElem?_entries (serves : access.Serves elements locations)
    {iteration key : Nat} {provided : IndexSet}
    (listed : access.keys[iteration]? = some key)
    (stored : elements.get? key = some provided) :
    elements.entries[iteration]? = some (key, provided) := by
  rw [serves.keys, IndexMap.keyList, List.getElem?_map,
    Option.map_eq_some_iff] at listed
  obtain ⟨⟨_, other⟩, entry, rfl⟩ := listed
  rw [IndexMap.value_unique (List.mem_of_getElem? entry)
    (IndexMap.get?_eq_some_iff.mp stored)] at entry
  exact entry

/-- In place, the start of a key and the number of an element add up to the
element's position. -/
theorem Serves.start_yields (serves : access.Serves elements locations)
    (within : locations.Within (2 ^ 63)) {start : IndexPattern}
    (placed : access.start = some start) {iteration key : Nat}
    {provided : IndexSet}
    (stored : elements.entries[iteration]? = some (key, provided)) :
    ∃ origin, start.Yields iteration origin ∧
      ∀ element ∈ provided, locations.At key element (origin + element) := by
  obtain ⟨_, ordered⟩ := serves.inPlace start placed
  obtain ⟨origin, value, found⟩ := ordered iteration key provided stored
  have behind := within.consecutiveFrom found
  exact ⟨origin, IndexPattern.yields_of_evaluate value
    (behind.start.position_lt within), behind.elements⟩

end GroupAccess

namespace ElementBucket

variable {bucket : ElementBucket} {elements : KeyElements}
  {locations : Locations} {count : Nat}

/-- A bucket copies an element of a key along one pair of patterns. -/
theorem Serves.rule_evaluates
    (serves : bucket.Serves elements locations count)
    {iteration key : Nat} {provided : IndexSet}
    (stored : elements.entries[iteration]? = some (key, provided))
    (sized : provided.size = count) {rank element : Nat}
    (ranked : provided.toList[rank]? = some element) :
    ∃ position copy target source,
      locations.At key element position ∧
      bucket.elements[rank]? = some copy ∧
      copy.rulesAt key = [(target, source)] ∧
      target.evaluate iteration = Int64.ofNat position ∧
      source.evaluate iteration = Int64.ofNat element := by
  have below : rank < bucket.elements.length := by
    rw [serves.length, ← sized, IndexSet.size]
    exact (List.getElem?_eq_some_iff.mp ranked).1
  have found := List.getElem?_eq_getElem below
  obtain ⟨points, copied, _, placed⟩ := serves.copies rank _ found
  obtain ⟨position, located, member⟩ :=
    placed iteration key provided element stored sized ranked
  obtain ⟨target, source, alone, targets, sources⟩ :=
    copied.rulesAt_eq member
  exact ⟨position, _, target, source, located, found, alone, targets,
    sources⟩

end ElementBucket

namespace Sparsity

/-- A plan covers every element of every group exactly once. -/
theorem callPlan_covers_exactly_once (reproduces : detector.Reproduces)
    (within : sparsity.locations.Within (2 ^ 63))
    (planned : sparsity.callPlan detector = .ok plan) :
    (plan.calls.map fun (_, loop, group, _) => (loop, group)).Perm
      (sparsity.groups.map fun group => (group.loop, group.group)) ∧
    (sparsity.groups.map fun group => (group.loop, group.group)).Nodup ∧
    ∀ count loop group access, (count, loop, group, access) ∈ plan.calls →
      ∃ groups elements, sparsity.loopGroups.get? loop = some groups ∧
        groups.get? group = some elements ∧
        count = elements.size ∧ access.keys = elements.keys.toList ∧
        (∀ pattern, access.keyPattern = some pattern →
          ∀ (iteration : Nat) key, access.keys[iteration]? = some key →
            pattern.evaluate iteration = Int64.ofNat key) ∧
        (∀ start, access.start = some start →
          ∀ (iteration : Nat) key, access.keys[iteration]? = some key →
          ∀ provided, elements.get? key = some provided →
            ∃ origin, start.Yields iteration origin ∧
              ∀ element ∈ provided,
                sparsity.locations.At key element (origin + element)) ∧
        (access.start = none →
          ∀ (iteration : Nat) key, access.keys[iteration]? = some key →
          ∀ provided, elements.get? key = some provided →
            ∃ bucket, access.buckets.get? provided.size = some bucket ∧
              (∀ size other, access.buckets.get? size = some other →
                (key ∈ other.keys ↔ size = provided.size)) ∧
              bucket.elements.length = provided.size ∧
              ∀ (rank : Nat) element,
                provided.toList[rank]? = some element →
                ∃ position copy target source,
                  sparsity.locations.At key element position ∧
                  bucket.elements[rank]? = some copy ∧
                  copy.rulesAt key = [(target, source)] ∧
                  target.Yields iteration position ∧
                  source.Yields iteration element) := by
  refine ⟨calls_perm_groups planned, sparsity.groups_distinct, ?_⟩
  intro count loop group access member
  obtain ⟨source, present, rfl, rfl, made, rfl⟩ :=
    (mem_calls_callPlan planned).mp member
  obtain ⟨groups, atLoop, atGroup⟩ := mem_groups.mp present
  have serves := LoopGroup.access_serves reproduces made
  refine ⟨groups, source.elements, atLoop, atGroup, ?_, serves.keys,
    serves.keyPattern, ?_, ?_⟩
  · rw [serves.keys, IndexMap.keyList, List.length_map, IndexMap.size]
  · intro start placed iteration key listed provided stored
    exact serves.start_yields within placed
      (serves.getElem?_entries listed stored)
  · intro unplaced iteration key listed provided stored
    obtain ⟨bucket, found⟩ := serves.buffered unplaced key provided stored
    refine ⟨bucket, found, ?_, (serves.serves _ _ found).length, ?_⟩
    · intro size other atSize
      rw [(serves.serves size other atSize).keys]
      constructor
      · rintro ⟨again, restored, sized⟩
        rw [stored] at restored
        cases restored
        exact sized.symm
      · exact fun sized => ⟨provided, stored, sized.symm⟩
    · intro rank element ranked
      obtain ⟨position, copy, target, side, located, copied, alone, targets,
        sources⟩ := (serves.serves _ _ found).rule_evaluates
          (serves.getElem?_entries listed stored) rfl ranked
      exact ⟨position, copy, target, side, located, copied, alone,
        IndexPattern.yields_of_evaluate targets (located.position_lt within),
        IndexPattern.yields_of_evaluate sources (located.element_lt within)⟩

/-- One group with four keys, whose single elements need two sections. -/
def fourKeys : Sparsity where
  loopGroups := IndexMap.ofList
    [(0, IndexMap.ofList
      [(4, IndexMap.ofList
        [ (2, IndexSet.ofList [0, 1]), (5, IndexSet.ofList [0]),
          (6, IndexSet.ofList [1]), (9, IndexSet.ofList [1]) ])])]
  locations := IndexMap.ofList
    [ (2, [IndexSet.ofList [3], IndexSet.ofList [1]]),
      (5, [IndexSet.ofList [4]]),
      (6, [∅, IndexSet.ofList [0]]),
      (9, [∅, IndexSet.ofList [2]]) ]
  ordered := IndexMap.ofList
    [(2, false), (5, false), (6, false), (9, true)]
  entryCount := 5

/-- At iteration 2 the element of key 6 is copied by the rule of its section
alone. -/
theorem fourKeys_covered_once :
    Detector.affine.Reproduces ∧ fourKeys.locations.Within (2 ^ 63) ∧
    ∃ plan access bucket copy target source,
      fourKeys.callPlan Detector.affine = .ok plan ∧
      (4, 0, 4, access) ∈ plan.calls ∧ access.start = none ∧
      access.buckets.get? 1 = some bucket ∧
      bucket.elements[0]? = some copy ∧
      copy.rulesAt 6 = [(target, source)] ∧
      target.Yields 2 0 ∧ source.Yields 2 1 := by
  have within : fourKeys.locations.Within (2 ^ 63) :=
    Locations.within_of_entries (by decide)
  have computed : (fourKeys.callPlan Detector.affine).map (fun plan =>
      plan.calls.map fun (count, loop, group, access) =>
        (count, loop, group, access.keys, access.start)) =
      .ok [(4, 0, 4, [2, 5, 6, 9], none)] :=
    rfl
  obtain ⟨plan, planned, computed⟩ := Traversal.map_eq_ok_iff.mp computed
  obtain ⟨⟨count, loop, group, access⟩, listed, equal⟩ :=
    List.map_eq_singleton_iff.mp computed
  simp only [Prod.mk.injEq] at equal
  obtain ⟨rfl, rfl, rfl, keys, unplaced⟩ := equal
  have member : (4, 0, 4, access) ∈ plan.calls := by simp [listed]
  obtain ⟨_, _, covered⟩ :=
    callPlan_covers_exactly_once Detector.affine_reproduces within planned
  obtain ⟨groups, elements, atLoop, atGroup, _, _, _, _, buffered⟩ :=
    covered 4 0 4 access member
  cases atLoop
  cases atGroup
  obtain ⟨bucket, found, _, _, rules⟩ :=
    buffered unplaced 2 6 (by rw [keys]; rfl) (IndexSet.ofList [1]) rfl
  obtain ⟨position, copy, target, source, located, copied, alone, targets,
    sources⟩ := rules 0 1 rfl
  have landed : fourKeys.locations.At 6 1 0 :=
    ⟨[∅, IndexSet.ofList [0]], rfl, rfl⟩
  rw [located.unique landed] at targets
  exact ⟨Detector.affine_reproduces, within, plan, access, bucket, copy,
    target, source, planned, member, unplaced, found, copied, alone, targets,
    sources⟩

end Sparsity

end SparseLoop
