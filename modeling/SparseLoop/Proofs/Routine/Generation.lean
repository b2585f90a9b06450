import SparseLoop.Proofs.Routine.Run
import SparseLoop.Proofs.Sparsity.Groupable

/-!
# Generation after grouping

What grouping has accepted can be written, whatever the detector answered.  The
keys of a group have recorded positions, so their widths are known.  The
buckets of a group have keys, and so have the sections of their elements, so
that every guard has an iteration to be active on and every section finds the
branch that was made for it.

The groups of a plan therefore add nothing to the causes of failure.  The
function of a description can be written exactly if that of its rows alone can
be, and every failure is about a name of the options or about a row.
-/

namespace SparseLoop

open Traversal

/-! ## Groups -/

namespace ElementBucket.Gathered

variable {bucket : ElementBucket} {detector : Detector}
  {elements : KeyElements} {locations : Locations} {count : Nat}

/-- Whatever the detector answers, the sections of an element of a gathered
bucket divide points with the keys of the bucket. -/
theorem exists_divide
    (gathered : bucket.Gathered detector elements locations count)
    {element : ElementCopy} (sectioned : element ∈ bucket.sectioned) :
    ∃ points, ElementSection.Divide element.sections points ∧
      ∀ key, key ∈ points.map (·.key) ↔ key ∈ bucket.keys := by
  obtain ⟨among, missing⟩ := mem_sectioned.mp sectioned
  obtain ⟨rank, ranked⟩ := List.mem_iff_getElem?.mp among
  obtain ⟨points, distinct, rfl, sameKeys, _⟩ :=
    gathered.points rank element ranked
  rw [ElementCopy.sections_ofPoints missing]
  exact ⟨points, ElementSection.split_divides detector distinct, sameKeys⟩

theorem isDivided
    (gathered : bucket.Gathered detector elements locations count) :
    bucket.IsDivided := by
  constructor
  · intro element sectioned
    obtain ⟨points, divide, _⟩ := gathered.exists_divide sectioned
    exact ⟨divide.inhabited, divide.apart⟩
  · intro element sectioned key inside
    obtain ⟨points, divide, sameKeys⟩ := gathered.exists_divide sectioned
    exact (divide.keys key).mpr ((sameKeys key).mpr inside)

/-- A section of an element has only keys of the bucket. -/
theorem mem_keys_of_section
    (gathered : bucket.Gathered detector elements locations count)
    {element : ElementCopy} (sectioned : element ∈ bucket.sectioned)
    {part : ElementSection} (among : part ∈ element.sections) {key : Nat}
    (inside : key ∈ part.keys) : key ∈ bucket.keys := by
  obtain ⟨points, divide, sameKeys⟩ := gathered.exists_divide sectioned
  exact (sameKeys key).mp ((divide.keys key).mp ⟨part, among, inside⟩)

end ElementBucket.Gathered

/-- The access of a group can be written if it has a key, if its keys have
recorded positions, and if they are divided where a call does not write in
place. -/
structure GroupAccess.IsWritable (access : GroupAccess)
    (locations : Locations) : Prop where
  inhabited : access.keys ≠ []
  recorded : ∀ key ∈ access.keys,
    ∃ positions, locations.get? key = some positions
  divided : access.start = none → access.IsDivided

namespace LoopGroup

variable {group : LoopGroup} {sparsity : Sparsity} {detector : Detector}
  {access : GroupAccess}

/-- The keys of a groupable group are located, whichever way is taken. -/
theorem IsGroupable.isLocated (groupable : group.IsGroupable sparsity)
    {key : Nat} {provided : IndexSet}
    (stored : group.elements.get? key = some provided) :
    sparsity.locations.IsLocated key provided := by
  rcases groupable.way with ⟨_, inOrder⟩ | ⟨_, located⟩
  · exact (inOrder key provided stored).isLocated
  · exact located key provided stored

theorem access_isWritable
    (found : group.access sparsity detector = .ok access) :
    access.IsWritable sparsity.locations where
  inhabited := (access_eq_ok found).2.1
  recorded key present := by
    rw [(access_eq_ok found).1, IndexMap.mem_keyList] at present
    obtain ⟨provided, stored⟩ := present
    obtain ⟨positions, recorded, _⟩ :=
      ((exists_access_iff detector).mp ⟨access, found⟩).isLocated
        (IndexMap.get?_eq_some_iff.mpr stored)
    exact ⟨positions, recorded⟩
  divided unplaced := by
    refine (access_sorts found unplaced).isDivided fun bucket listed => ?_
    obtain ⟨count, stored⟩ := IndexMap.mem_values.mp listed
    exact (access_gathered found stored).1.isDivided

/-- Whatever the detector answers, a group with one key that does not write in
place has one bucket and no element with several sections. -/
theorem access_single (found : group.access sparsity detector = .ok access)
    (unplaced : access.start = none) {key : Nat}
    (single : access.keys = [key]) :
    access.buckets.values.length = 1 ∧
      ∀ bucket ∈ access.buckets.values, ∀ element ∈ bucket.sectioned,
        element.sections.length = 1 := by
  refine ((access_isWritable found).divided unplaced).single ?_ ?_ single
  · intro bucket listed other inside
    obtain ⟨count, stored⟩ := IndexMap.mem_values.mp listed
    obtain ⟨provided, present, _⟩ :=
      ((access_gathered found stored).1.keys other).mp inside
    rw [(access_eq_ok found).1, IndexMap.mem_keyList]
    exact ⟨provided, IndexMap.get?_eq_some_iff.mp present⟩
  · intro bucket listed element sectioned part among other inside
    obtain ⟨count, stored⟩ := IndexMap.mem_values.mp listed
    exact (access_gathered found stored).1.mem_keys_of_section sectioned
      among inside

end LoopGroup

namespace GroupCall

variable {locations : Locations}

end GroupCall

/-- A plan can be written if the accesses of all its groups can be. -/
def CallPlan.IsWritable (plan : CallPlan) (locations : Locations) : Prop :=
  ∀ call ∈ plan.calls, call.2.2.2.IsWritable locations

namespace CallPlan

variable {sparsity : Sparsity} {plan : CallPlan}

/-- A plan that grouping has made can be written. -/
theorem isWritable_of_callPlan {detector : Detector}
    (planned : sparsity.callPlan detector = .ok plan) :
    plan.IsWritable sparsity.locations := by
  rintro ⟨count, loop, group, access⟩ member
  obtain ⟨source, _, _, _, found, _⟩ :=
    (Sparsity.mem_calls_callPlan planned).mp member
  exact LoopGroup.access_isWritable found

end CallPlan

namespace UsageFunction

variable {sparsity : Sparsity} {plan : CallPlan}

end UsageFunction

/-! ## Rows -/

namespace RowCall

variable {sparsity : Sparsity} {row : Nat} {provided : IndexSet}
  {positions : List IndexSet}

end RowCall

namespace UsageFunction

variable {sparsity : Sparsity}

theorem checkNames_eq_ok_iff {options : Options} :
    checkNames options = .ok () ↔
      options.iterationName ≠ "e" ∧ options.keyName ≠ "e" := by
  rw [checkNames, counterName]
  by_cases iteration : options.iterationName = "e" <;>
    by_cases key : options.keyName = "e" <;>
    simp [iteration, key, bind, Except.bind, throw, throwThe,
      MonadExceptOf.throw, pure, Except.pure]

end UsageFunction

/-! ## Causes of failure -/

section RowFailures

variable {sparsity : Sparsity} {row : Nat} {provided : IndexSet}
  {failure : Failure}

namespace Locations

variable {locations : Locations}

end Locations

namespace RowCall

end RowCall

namespace UsageFunction

end UsageFunction

end RowFailures

end SparseLoop
