import SparseLoop.Proofs.Sparsity.OrderFlags

/-!
# Descriptions that can be grouped

Whether grouping succeeds is decided by the description alone.  A group must
have a key, and each of its keys an order flag.  If all flags promise an order,
every key has to keep the promise.  If some flag does not, every key needs
recorded positions, with a single one for each element that it provides.

A detector has no part in this.  It is asked for the start of a group only
after all checks of the starts have passed, and keys in order pass all checks
of the buckets.  So a group whose starts have no pattern falls back to buckets
without a failure, and a description that fails does so with the same failure
for every detector.
-/

namespace SparseLoop

open Traversal

/-! ## Recorded positions of a key -/

/-- A key has recorded positions, with a single one for each element that is
provided. -/
def Locations.IsLocated (locations : Locations) (key : Nat)
    (provided : IndexSet) : Prop :=
  ∃ positions, locations.get? key = some positions ∧
    ∀ element ∈ provided, ∃ position,
      position? positions element = some position

/-- A key whose elements lie in order is located. -/
theorem Locations.InOrder.isLocated {locations : Locations} {key : Nat}
    {provided : IndexSet} (inOrder : locations.InOrder key provided) :
    locations.IsLocated key provided := by
  obtain ⟨origin, ⟨positions, recorded, _⟩, placed⟩ := inOrder
  refine ⟨positions, recorded, fun element member => ?_⟩
  obtain ⟨_, again, single⟩ := placed element member
  rw [recorded] at again
  cases again
  exact ⟨_, single⟩

/-- The row of a key is found exactly if the key is located. -/
theorem BucketRow.exists_locate_iff {locations : Locations}
    {iteration key : Nat} {provided : IndexSet} :
    (∃ row, locate locations iteration key provided = .ok row) ↔
      locations.IsLocated key provided := by
  constructor
  · rintro ⟨row, placed⟩
    rw [locate, bind_eq_ok_iff] at placed
    obtain ⟨positions, recorded, placed⟩ := placed
    rw [bind_eq_ok_iff] at placed
    obtain ⟨entries, visited, _⟩ := placed
    refine ⟨positions, Locations.find_eq_ok_iff.mp recorded,
      fun element member => ?_⟩
    obtain ⟨entry, found⟩ := exists_mapM_ok_iff.mp ⟨entries, visited⟩ element
      (IndexSet.mem_toList.mpr member)
    split at found
    · next position single => exact ⟨position, single⟩
    · cases found
  · rintro ⟨positions, recorded, single⟩
    rw [locate, Locations.find_eq_ok_iff.mpr recorded]
    refine exists_mapM_bind_ok (fun element member => ?_) fun _ => ⟨_, rfl⟩
    obtain ⟨position, found⟩ :=
      single element (IndexSet.mem_toList.mp member)
    rw [found]
    exact ⟨(element, position), rfl⟩

namespace KeyElements

variable {elements : KeyElements} {locations : Locations}

/-- The buckets of a group are found exactly if all its keys are located. -/
theorem exists_buckets_iff (detector : Detector) :
    (∃ found, KeyElements.buckets elements locations detector =
      .ok found) ↔
      ∀ key provided, elements.get? key = some provided →
        locations.IsLocated key provided := by
  constructor
  · rintro ⟨found, bucketed⟩ key provided stored
    obtain ⟨made, present⟩ := buckets_eq_ok bucketed
    obtain ⟨bucket, located⟩ := present key provided stored
    obtain ⟨_, bucketMade⟩ := made _ _ located
    rw [KeyElements.bucket, bind_eq_ok_iff] at bucketMade
    obtain ⟨rows, visited, _⟩ := bucketMade
    obtain ⟨iteration, listed⟩ := List.mem_iff_getElem?.mp
      (IndexMap.get?_eq_some_iff.mp stored)
    exact BucketRow.exists_locate_iff.mp <|
      exists_mapM_ok_iff.mp ⟨rows, visited⟩ (iteration, key, provided)
        (mem_rowsOf.mpr ⟨listed, rfl⟩)
  · intro located
    refine exists_mapM_bind_ok (fun count _ => ?_) fun _ => ⟨_, rfl⟩
    obtain ⟨bucket, made⟩ : ∃ bucket, KeyElements.bucket elements locations
        detector count = .ok bucket := by
      refine exists_mapM_bind_ok ?_ fun _ => ⟨_, rfl⟩
      rintro ⟨iteration, key, provided⟩ member
      refine BucketRow.exists_locate_iff.mpr (located key provided ?_)
      exact IndexMap.get?_eq_some_iff.mpr
        (List.mem_of_getElem? (mem_rowsOf.mp member).1)
    rw [made]
    exact ⟨(count, bucket), rfl⟩

/-- The checks of the buckets do not look at the detector. -/
theorem buckets_failAlike (elements : KeyElements) (locations : Locations)
    (detector other : Detector) :
    FailAlike (KeyElements.buckets elements locations detector)
      (KeyElements.buckets elements locations other) := by
  refine FailAlike.bind (FailAlike.mapM fun count _ => ?_)
    fun _ _ _ _ => FailAlike.of_ok
  refine FailAlike.bind ?_ fun _ _ _ _ => FailAlike.of_ok
  exact (FailAlike.refl _).bind fun _ _ _ _ => FailAlike.of_ok

/-- Keys in order pass all checks of the buckets. -/
theorem exists_buckets_of_starts (detector : Detector) {found : List Nat}
    (started : KeyElements.starts elements locations = .ok found) :
    ∃ buckets, KeyElements.buckets elements locations detector =
      .ok buckets := by
  have inOrder := exists_starts_iff.mp ⟨found, started⟩
  refine (exists_buckets_iff detector).mpr fun key provided stored => ?_
  exact (inOrder key provided stored).isLocated

end KeyElements

/-! ## Groups -/

namespace LoopGroup

variable {group : LoopGroup} {sparsity : Sparsity}

/-- What grouping asks of a group: it has a key, and its keys are all flagged
as ordered and lie in order, or they all have flags, of which some says
otherwise, and are located. -/
structure IsGroupable (group : LoopGroup) (sparsity : Sparsity) :
    Prop where
  inhabited : ∃ key, key ∈ group.elements.keys
  way :
    (group.AllFlagged sparsity ∧
      ∀ key provided, group.elements.get? key = some provided →
        sparsity.locations.InOrder key provided) ∨
    (group.SomeUnflagged sparsity.ordered ∧
      ∀ key provided, group.elements.get? key = some provided →
        sparsity.locations.IsLocated key provided)

theorem keyList_isEmpty_eq_false
    (inhabited : ∃ key, key ∈ group.elements.keys) :
    group.elements.keyList.isEmpty = false := by
  obtain ⟨key, present⟩ := inhabited
  rw [Bool.eq_false_iff]
  exact fun empty =>
    List.ne_nil_of_mem present (List.isEmpty_iff.mp empty)

/-- The access of a group is found exactly if the group is groupable. -/
theorem exists_access_iff (detector : Detector) :
    (∃ access, group.access sparsity detector = .ok access) ↔
      group.IsGroupable sparsity := by
  constructor
  · rintro ⟨access, found⟩
    obtain ⟨keys, filled, _, _⟩ := access_eq_ok found
    obtain ⟨key, present⟩ := List.exists_mem_of_ne_nil _ filled
    rw [keys] at present
    obtain ⟨flags, read, started⟩ := flags_of_access_eq_ok found
    refine ⟨⟨key, present⟩, ?_⟩
    rcases allFlagged_or_someUnflagged read with ⟨promised, flagged⟩ | mixed
    · exact .inl ⟨flagged, KeyElements.exists_starts_iff.mp
        (started promised)⟩
    · rw [access_of_someUnflagged mixed, map_eq_ok_iff] at found
      obtain ⟨buckets, bucketed, _⟩ := found
      exact .inr ⟨mixed, (KeyElements.exists_buckets_iff detector).mp
        ⟨buckets, bucketed⟩⟩
  · rintro ⟨inhabited, ⟨flagged, inOrder⟩ | ⟨mixed, located⟩⟩
    · have readable : ∀ key ∈ group.elements.keyList,
          ∃ flag, sparsity.isOrdered key = .ok flag := fun key present =>
        ⟨true, Sparsity.isOrdered_eq_ok_iff.mpr (flagged key present)⟩
      obtain ⟨flags, read⟩ := exists_mapM_ok_iff.mpr readable
      obtain ⟨starts, started⟩ :=
        KeyElements.exists_starts_iff.mpr inOrder
      obtain ⟨buckets, bucketed⟩ :=
        KeyElements.exists_buckets_of_starts detector started
      rw [LoopGroup.access]
      dsimp only
      rw [keyList_isEmpty_eq_false inhabited, read]
      simp only [Bool.false_eq_true, if_false, bind, Except.bind,
        flagged.all_flags read, if_true, Functor.map, Except.map, started,
        bucketed]
      cases detector.ofSequence starts <;> exact ⟨_, rfl⟩
    · obtain ⟨buckets, bucketed⟩ :=
        (KeyElements.exists_buckets_iff detector).mpr located
      rw [access_of_someUnflagged mixed, bucketed]
      exact ⟨_, rfl⟩

/-- The detector decides how a group reaches the result, and not whether. -/
theorem access_failAlike (group : LoopGroup) (sparsity : Sparsity)
    (detector other : Detector) :
    FailAlike (group.access sparsity detector)
      (group.access sparsity other) := by
  rw [LoopGroup.access, LoopGroup.access]
  dsimp only
  split
  · exact FailAlike.refl _
  refine (FailAlike.refl _).bind fun flags _ read again => ?_
  rw [read] at again
  cases again
  split
  · cases started : KeyElements.starts group.elements
        sparsity.locations with
    | error failure => exact FailAlike.refl _
    | ok starts =>
      -- After the checks of the starts, the fallback cannot fail.
      obtain ⟨buckets, bucketed⟩ :=
        KeyElements.exists_buckets_of_starts detector started
      obtain ⟨others, otherBucketed⟩ :=
        KeyElements.exists_buckets_of_starts other started
      simp only [Functor.map, Except.map, bind, Except.bind, bucketed,
        otherBucketed]
      cases detector.ofSequence starts <;>
        cases other.ofSequence starts <;> exact FailAlike.of_ok
  · exact (KeyElements.buckets_failAlike _ _ _ _).bind
      fun _ _ _ _ => FailAlike.of_ok

end LoopGroup

/-! ## Descriptions -/

namespace Sparsity

variable {sparsity : Sparsity}

/-- A plan is found exactly if every group is groupable. -/
theorem exists_callPlan_iff (detector : Detector) :
    (∃ plan, sparsity.callPlan detector = .ok plan) ↔
      ∀ group ∈ sparsity.groups, group.IsGroupable sparsity := by
  constructor
  · rintro ⟨plan, planned⟩ group member
    exact (LoopGroup.exists_access_iff detector).mp
      (exists_access_of_callPlan planned member)
  · intro groupable
    refine exists_mapM_bind_ok (fun group member => ?_) fun _ => ⟨_, rfl⟩
    obtain ⟨access, found⟩ := (LoopGroup.exists_access_iff detector).mpr
      (groupable group member)
    rw [found]
    exact ⟨(group, access), rfl⟩

/-- Grouping fails with a failure that no detector can change. -/
theorem callPlan_failAlike (sparsity : Sparsity)
    (detector other : Detector) :
    FailAlike (sparsity.callPlan detector) (sparsity.callPlan other) := by
  refine FailAlike.bind (FailAlike.mapM fun group _ => ?_)
    fun _ _ _ _ => FailAlike.of_ok
  exact (group.access_failAlike sparsity detector other).bind
    fun _ _ _ _ => FailAlike.of_ok

/-- Grouping succeeds exactly if every group is groupable, whatever the
detector answers, and where it fails it fails with the same failure for every
detector.  Once the starts of a group are found, the group has an access even
if they have no pattern.  The order that is asked of a key means that its
elements lie one after the other, at least below half of the words. -/
theorem grouping_decided_by_description (sparsity : Sparsity)
    (detector : Detector) :
    ((∃ plan, sparsity.callPlan detector = .ok plan) ↔
      ∀ group ∈ sparsity.groups, group.IsGroupable sparsity) ∧
    (∀ other failure, sparsity.callPlan detector = .error failure ↔
      sparsity.callPlan other = .error failure) ∧
    (∀ group ∈ sparsity.groups, ∀ starts,
      group.AllFlagged sparsity → (∃ key, key ∈ group.elements.keys) →
      KeyElements.starts group.elements sparsity.locations = .ok starts →
      detector.ofSequence starts = none →
        ∃ access, group.access sparsity detector = .ok access ∧
          access.start = none) ∧
    (sparsity.locations.Within (2 ^ 63) → ∀ key provided,
      (sparsity.locations.InOrder key provided ↔
        sparsity.locations.Consecutive key provided)) := by
  refine ⟨exists_callPlan_iff detector,
    fun other => callPlan_failAlike sparsity detector other, ?_,
    fun within _ _ => within.inOrder_iff⟩
  intro group _ starts flagged inhabited started declined
  have inOrder := KeyElements.exists_starts_iff.mp ⟨starts, started⟩
  obtain ⟨access, found⟩ := (LoopGroup.exists_access_iff detector).mpr
    ⟨inhabited, .inl ⟨flagged, inOrder⟩⟩
  refine ⟨access, found, ?_⟩
  obtain ⟨_, _, _, ⟨again, start, restarted, detected, _⟩ | ⟨unplaced, _⟩⟩ :=
    LoopGroup.access_eq_ok found
  · rw [started] at restarted
    cases restarted
    rw [declined] at detected
    cases detected
  · exact unplaced

/-- Two keys in order whose starts are not constant are put into buckets by
the detector of constants, and a broken promise is the same failure for the
detector of lines and for one that declines always. -/
theorem twoKeys_grouping :
    (∃ access, twoKeysGroup.access (twoKeys 5 true true)
      Detector.constant = .ok access ∧ access.start = none) ∧
    (∀ group ∈ (twoKeys 5 true true).groups,
      group.IsGroupable (twoKeys 5 true true)) ∧
    (twoKeys 5 true true).locations.Consecutive 0
      (IndexSet.ofList [0, 1]) ∧
    (twoKeys 9 true true).callPlan Detector.never =
      .error (.unorderedArray 0 1) ∧
    ¬ ∀ group ∈ (twoKeys 9 true true).groups,
      group.IsGroupable (twoKeys 9 true true) := by
  have flagged : ∀ key ∈ twoKeysGroup.elements.keys,
      (twoKeys 5 true true).ordered.get? key = some true := by decide
  have kept := grouping_decided_by_description (twoKeys 5 true true)
    Detector.constant
  have broken := grouping_decided_by_description (twoKeys 9 true true)
    Detector.affine
  have refused : (twoKeys 9 true true).callPlan Detector.affine =
      .error (.unorderedArray 0 1) := rfl
  refine ⟨?_, kept.1.mp ⟨_, rfl⟩, ?_, ?_, ?_⟩
  · exact kept.2.2.1 twoKeysGroup (by decide) [4, 2] flagged
      ⟨0, by decide⟩ rfl rfl
  · exact (kept.2.2.2 (Locations.within_of_entries (by decide)) 0 _).mp
      (Locations.inOrder_iff_orderedStart.mpr ⟨4, rfl⟩)
  · exact (broken.2.1 Detector.never _).mp refused
  · intro groupable
    obtain ⟨plan, planned⟩ := broken.1.mpr groupable
    rw [refused] at planned
    cases planned

end Sparsity

end SparseLoop
