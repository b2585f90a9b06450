import SparseLoop.Proofs.Sparsity.Grouping

/-!
# The call plan as a table of groups

A call plan is a map of maps of maps.  Its view is `access?`: the access under
an iteration count, a loop and a group.  Setting the access of a group changes
this view at one place only, and the list of calls holds exactly what the view
shows.

A description has each pair of a loop and a group once.  The calls of its plan
are therefore the groups of the description with their accesses, in another
order.
-/

namespace SparseLoop

open Traversal

namespace CallPlan

variable {plan : CallPlan} {count loop group : Nat} {access : GroupAccess}

/-- The access of a group under an iteration count. -/
def access? (plan : CallPlan) (count loop group : Nat) :
    Option GroupAccess :=
  (plan.get? count).bind fun loops =>
    (loops.get? loop).bind fun groups => groups.get? group

@[simp]
theorem access?_empty (count loop group : Nat) :
    access? ∅ count loop group = none :=
  rfl

/-- Setting the access of a group changes the view at that group only. -/
theorem access?_put (plan : CallPlan) (count loop group : Nat)
    (access : GroupAccess) (otherCount otherLoop otherGroup : Nat) :
    (plan.put count loop group access).access?
        otherCount otherLoop otherGroup =
      if otherCount = count ∧ otherLoop = loop ∧ otherGroup = group then
        some access
      else
        plan.access? otherCount otherLoop otherGroup := by
  simp only [access?, put, IndexMap.alter, IndexMap.get?_insert]
  by_cases sameCount : otherCount = count
  · subst sameCount
    by_cases sameLoop : otherLoop = loop
    · subst sameLoop
      by_cases sameGroup : otherGroup = group
      · simp [sameGroup]
      · cases outer : plan.get? otherCount with
        | none => simp [sameGroup]
        | some loops =>
          cases inner : loops.get? otherLoop <;> simp [sameGroup, inner]
    · cases outer : plan.get? otherCount <;> simp [sameLoop]
  · simp [sameCount]

/-- The calls of a plan are what its view shows. -/
theorem mem_calls :
    (count, loop, group, access) ∈ plan.calls ↔
      plan.access? count loop group = some access := by
  simp only [calls, access?, List.mem_flatMap, List.mem_map,
    Option.bind_eq_some_iff, IndexMap.get?_eq_some_iff]
  constructor
  · rintro ⟨⟨_, loops⟩, atCount, ⟨_, groups⟩, atLoop, ⟨_, found⟩,
      atGroup, equal⟩
    cases equal
    exact ⟨loops, atCount, groups, atLoop, atGroup⟩
  · rintro ⟨loops, atCount, groups, atLoop, atGroup⟩
    exact ⟨(count, loops), atCount, (loop, groups), atLoop,
      (group, access), atGroup, rfl⟩

/-- No call of a plan is listed twice. -/
theorem nodup_calls (plan : CallPlan) : plan.calls.Nodup := by
  rw [calls, List.nodup_flatMap]
  constructor
  · rintro ⟨count, loops⟩ _
    rw [List.nodup_flatMap]
    constructor
    · rintro ⟨loop, groups⟩ _
      refine List.Nodup.map ?_ groups.nodup_entries
      rintro ⟨group, access⟩ ⟨_, _⟩ equal
      cases equal
      rfl
    · refine loops.ascending.imp ?_
      intro first second below call inFirst inSecond
      simp only [List.mem_map] at inFirst inSecond
      obtain ⟨_, _, rfl⟩ := inFirst
      obtain ⟨_, _, equal⟩ := inSecond
      exact Nat.ne_of_gt below (congrArg (·.2.1) equal)
  · refine plan.ascending.imp ?_
    intro first second below call inFirst inSecond
    simp only [List.mem_flatMap, List.mem_map] at inFirst inSecond
    obtain ⟨_, _, _, _, rfl⟩ := inFirst
    obtain ⟨_, _, _, _, equal⟩ := inSecond
    exact Nat.ne_of_gt below (congrArg (·.1) equal)

/-- The plan after setting the accesses of some groups. -/
def putAll (plan : CallPlan) (accesses : List (LoopGroup × GroupAccess)) :
    CallPlan :=
  accesses.foldl
    (fun plan (group, access) =>
      plan.put access.keys.length group.loop group.group access)
    plan

/-- What a plan shows after accesses were set for distinct groups. -/
theorem access?_putAll {accesses : List (LoopGroup × GroupAccess)}
    (distinct : (accesses.map fun (group, _) =>
      (group.loop, group.group)).Nodup) :
    (plan.putAll accesses).access? count loop group = some access ↔
      (∃ entry ∈ accesses, entry.1.loop = loop ∧ entry.1.group = group ∧
        entry.2 = access ∧ access.keys.length = count) ∨
      plan.access? count loop group = some access ∧
        ∀ entry ∈ accesses, ¬ (entry.1.loop = loop ∧
          entry.1.group = group ∧ entry.2.keys.length = count) := by
  induction accesses generalizing plan with
  | nil => simp [putAll]
  | cons entry rest ih =>
    obtain ⟨source, first⟩ := entry
    rw [List.map_cons, List.nodup_cons] at distinct
    obtain ⟨fresh, distinct⟩ := distinct
    have step : plan.putAll ((source, first) :: rest) =
        (plan.put first.keys.length source.loop source.group first).putAll
          rest := rfl
    have absent : ∀ entry ∈ rest,
        ¬ (entry.1.loop = source.loop ∧ entry.1.group = source.group) := by
      intro entry member same
      apply fresh
      rw [List.mem_map]
      exact ⟨entry, member, Prod.ext same.1 same.2⟩
    rw [step, ih distinct, access?_put]
    by_cases here : count = first.keys.length ∧ loop = source.loop ∧
        group = source.group
    · obtain ⟨sameCount, sameLoop, sameGroup⟩ := here
      subst sameCount sameLoop sameGroup
      simp only [and_self, if_true, Option.some.injEq,
        List.exists_mem_cons_iff, List.forall_mem_cons]
      constructor
      · rintro (⟨entry, member, sameLoop, sameGroup, _⟩ | ⟨equal, _⟩)
        · exact absurd ⟨sameLoop, sameGroup⟩ (absent entry member)
        · exact .inl (.inl ⟨trivial, trivial, equal, equal ▸ rfl⟩)
      · rintro ((⟨_, _, equal, _⟩ |
          ⟨entry, member, sameLoop, sameGroup, _⟩) | ⟨_, apart, _⟩)
        · exact .inr ⟨equal, fun entry member same =>
            absent entry member ⟨same.1, same.2.1⟩⟩
        · exact absurd ⟨sameLoop, sameGroup⟩ (absent entry member)
        · exact absurd trivial apart
    · rw [if_neg here]
      simp only [List.exists_mem_cons_iff, List.forall_mem_cons]
      constructor
      · rintro (later | ⟨shown, apart⟩)
        · exact .inl (.inr later)
        · refine .inr ⟨shown, ?_, apart⟩
          rintro ⟨sameLoop, sameGroup, sameCount⟩
          exact here ⟨sameCount.symm, sameLoop.symm, sameGroup.symm⟩
      · rintro ((⟨sameLoop, sameGroup, equal, sameCount⟩ | later) |
          ⟨shown, _, apart⟩)
        · subst equal
          exact absurd ⟨sameCount.symm, sameLoop.symm, sameGroup.symm⟩ here
        · exact .inl later
        · exact .inr ⟨shown, apart⟩

end CallPlan

namespace Sparsity

variable {sparsity : Sparsity} {detector : Detector} {plan : CallPlan}

theorem mem_groups {group : LoopGroup} :
    group ∈ sparsity.groups ↔
      ∃ groups, sparsity.loopGroups.get? group.loop = some groups ∧
        groups.get? group.group = some group.elements := by
  obtain ⟨loop, name, elements⟩ := group
  simp only [groups, List.mem_flatMap, List.mem_map,
    IndexMap.get?_eq_some_iff]
  constructor
  · rintro ⟨⟨_, groups⟩, atLoop, ⟨_, _⟩, atGroup, equal⟩
    cases equal
    exact ⟨groups, atLoop, atGroup⟩
  · rintro ⟨groups, atLoop, atGroup⟩
    exact ⟨(loop, groups), atLoop, (name, elements), atGroup, rfl⟩

/-- A description lists its groups by loop and then by group. -/
theorem groups_ascending (sparsity : Sparsity) :
    sparsity.groups.Pairwise fun left right =>
      left.loop < right.loop ∨
        left.loop = right.loop ∧ left.group < right.group := by
  rw [groups, List.pairwise_flatMap]
  constructor
  · rintro ⟨loop, groups⟩ _
    rw [List.pairwise_map]
    exact groups.ascending.imp fun below => .inr ⟨rfl, below⟩
  · refine sparsity.loopGroups.ascending.imp ?_
    intro first second below left inFirst right inSecond
    rw [List.mem_map] at inFirst inSecond
    obtain ⟨_, _, rfl⟩ := inFirst
    obtain ⟨_, _, rfl⟩ := inSecond
    exact .inl below

theorem groups_distinct (sparsity : Sparsity) :
    (sparsity.groups.map fun group => (group.loop, group.group)).Nodup := by
  refine List.pairwise_map.mpr (sparsity.groups_ascending.imp ?_)
  intro left right below equal
  rw [Prod.mk.injEq] at equal
  omega

/-- A plan is made from the access of each group. -/
theorem callPlan_eq_ok (planned : sparsity.callPlan detector = .ok plan) :
    ∃ accesses : List GroupAccess,
      List.Forall₂
        (fun group access => group.access sparsity detector = .ok access)
        sparsity.groups accesses ∧
      plan = CallPlan.putAll ∅ (sparsity.groups.zip accesses) := by
  rw [callPlan, bind_eq_ok_iff] at planned
  obtain ⟨entries, visited, equal⟩ := planned
  cases equal
  have related : List.Forall₂
      (fun (group : LoopGroup) (entry : LoopGroup × GroupAccess) =>
        group = entry.1 ∧ group.access sparsity detector = .ok entry.2)
      sparsity.groups entries := by
    refine (mapM_eq_ok_iff.mp visited).imp fun group entry made => ?_
    rw [bind_eq_ok_iff] at made
    obtain ⟨access, made, equal⟩ := made
    cases equal
    exact ⟨rfl, made⟩
  have sources : sparsity.groups = entries.map (·.1) := by
    rw [← List.forall₂_eq_eq_eq, List.forall₂_map_right_iff]
    exact related.imp fun _ _ answers => answers.1
  refine ⟨entries.map (·.2), ?_, ?_⟩
  · rw [List.forall₂_map_right_iff]
    exact related.imp fun _ _ answers => answers.2
  · rw [sources, List.zip_map']
    simp [CallPlan.putAll]

/-- The calls of a plan are the groups of the description. -/
theorem mem_calls_callPlan (planned : sparsity.callPlan detector = .ok plan)
    {count loop group : Nat} {access : GroupAccess} :
    (count, loop, group, access) ∈ plan.calls ↔
      ∃ source ∈ sparsity.groups, source.loop = loop ∧
        source.group = group ∧
        source.access sparsity detector = .ok access ∧
        access.keys.length = count := by
  obtain ⟨accesses, related, equal⟩ := callPlan_eq_ok planned
  subst equal
  have distinct : ((sparsity.groups.zip accesses).map
      fun (group, _) => (group.loop, group.group)).Nodup := by
    have sources : ((sparsity.groups.zip accesses).map
        fun (group, _) => (group.loop, group.group)) =
        sparsity.groups.map fun group => (group.loop, group.group) := by
      conv_rhs => rw [← List.map_fst_zip (Nat.le_of_eq related.length_eq),
        List.map_map]
      rfl
    rw [sources]
    exact sparsity.groups_distinct
  rw [CallPlan.mem_calls, CallPlan.access?_putAll distinct]
  simp only [CallPlan.access?_empty, reduceCtorEq, false_and, or_false]
  constructor
  · rintro ⟨entry, member, sameLoop, sameGroup, rfl, counted⟩
    have answered := List.forall₂_iff_zip.mp related
    exact ⟨entry.1, (List.of_mem_zip member).1, sameLoop, sameGroup,
      answered.2 member, counted⟩
  · rintro ⟨source, member, sameLoop, sameGroup, made, counted⟩
    obtain ⟨position, found⟩ := List.mem_iff_getElem?.mp member
    obtain ⟨other, stored, again⟩ := exists_getElem? related found
    rw [made, Except.ok.injEq] at again
    subst again
    refine ⟨(source, access), ?_, sameLoop, sameGroup, rfl, counted⟩
    exact List.mem_of_getElem? (i := position)
      (List.getElem?_zip_eq_some.mpr ⟨found, stored⟩)

end Sparsity

end SparseLoop
