import Mathlib.Data.List.Perm.Subperm
import Mathlib.Tactic.Choose
import SparseLoop.Proofs.Range.Exactness

/-!
# Compression gives as few ranges as there can be

Two blocks of active and spare iterations never touch: the iteration after a
block is neither active nor spare, unless the block is the last one.  Each range
stays within its block, so the ranges are in order and do not touch either, and
only that of the last block with an active iteration can lose its upper bound.

The iterations between the blocks also show that no other list of ranges is
shorter.  A range that holds at active iterations of two blocks holds between
them as well, where it must not.  Hence the first active iterations of the blocks
lie in as many different ranges.
-/

namespace SparseLoop

namespace IterationBlock

variable {marked : List (Nat × Bool)} {blocks : List IterationBlock}
  {block : IterationBlock} {iteration lastIteration : Nat} {isActive : Bool}
  {range : IterationRange}

/-! ## Blocks do not touch -/

/-- An iteration lies between a block and a later one. -/
def Apart (earlier later : IterationBlock) : Prop :=
  earlier.last + 1 < later.first

theorem Divide.addFront_apart (divide : Divide blocks marked)
    (apart : blocks.Pairwise Apart)
    (smallest : ∀ later ∈ marked, iteration < later.1) :
    (IterationBlock.addFront (iteration, isActive) blocks).Pairwise Apart := by
  cases blocks with
  | nil => exact List.pairwise_singleton Apart _
  | cons block rest =>
    rcases List.pairwise_cons.mp apart with ⟨beyond, restApart⟩
    have ordered := (divide.described block List.mem_cons_self).ordered
    rw [IterationBlock.addFront]
    split
    · exact List.pairwise_cons.mpr ⟨beyond, restApart⟩
    · next notAdjacent =>
      rcases divide.first_mem List.mem_cons_self with ⟨_, member⟩
      have above : iteration < block.first := smallest _ member
      refine List.pairwise_cons.mpr ⟨?_, apart⟩
      intro other among
      show iteration + 1 < other.first
      rcases List.mem_cons.mp among with equal | later
      · rw [equal]
        omega
      · have further : block.last + 1 < other.first := beyond other later
        omega

/-- The blocks of an ascending list do not touch. -/
theorem split_apart
    (ascending : marked.Pairwise fun left right => left.1 < right.1) :
    (split marked).Pairwise Apart := by
  induction marked with
  | nil => exact List.Pairwise.nil
  | cons entry rest ih =>
    rcases List.pairwise_cons.mp ascending with ⟨smallest, restAscending⟩
    exact (split_spec restAscending).addFront_apart (ih restAscending) smallest

/-- The iteration after a block is not marked. -/
theorem Divide.notMem_after (divide : Divide blocks marked)
    (apart : blocks.Pairwise Apart) (among : block ∈ blocks) :
    (block.last + 1, isActive) ∉ marked := by
  intro member
  rcases divide.covered _ member with ⟨other, otherAmong, atLeast, atMost⟩
  have ordered := (divide.described other otherAmong).ordered
  have placed : block = other ∨ Apart block other ∨ Apart other block :=
    List.Pairwise.forall_of_forall_of_flip
      (R := fun left right => left = right ∨ Apart left right ∨ Apart right left)
      (fun _ _ => .inl rfl) (apart.imp fun before => .inr (.inl before))
      (apart.imp fun before => .inr (.inr before)) among otherAmong
  have inside := (divide.described block among).ordered
  rcases placed with equal | before | after
  · rw [← equal] at atMost
    exact Nat.not_succ_le_self _ atMost
  · exact Nat.not_lt.mpr atLeast before
  · have earlier : other.last + 1 < block.first := after
    omega

/-! ## The range of a block -/

/-- A range has the bounds of the active part of its block, except that it may
begin at zero with its block and be unbounded where its block ends at the last
iteration. -/
theorem exists_active_of_range?
    (found : block.range? lastIteration = some range) :
    ∃ low high, block.active = some (low, high) ∧
      (range.low = low ∨ block.first = 0 ∧ range.low = 0) ∧
      (range.high = high ∨
        block.last = lastIteration ∧
          range.high = IterationRange.unbounded) := by
  rcases Option.map_eq_some_iff.mp found with ⟨⟨low, high⟩, active, equal⟩
  refine ⟨low, high, active, ?_⟩
  dsimp only at equal
  split at equal
  · cases equal
    exact ⟨.inl rfl, .inl rfl⟩
  · cases equal
    constructor
    · show (if block.first = 0 then 0 else low) = low ∨ _
      split
      · next atZero => exact .inr ⟨atZero, rfl⟩
      · exact .inl rfl
    · show (if block.last = lastIteration then _ else high) = high ∨ _
      split
      · next atEnd => exact .inr ⟨atEnd, rfl⟩
      · exact .inl rfl

end IterationBlock

namespace IterationRange

open IterationBlock (Divide Apart)

variable {active spare : IndexSet} {lastIteration iteration : Nat}
  {range : IterationRange}

/-! ## Ranges in order -/

theorem low_le_high_of_mem_cover
    (small : ∀ iteration ∈ active, iteration ≤ unbounded)
    (member : range ∈ cover active spare lastIteration) :
    range.low ≤ range.high := by
  rcases mem_cover.mp member with ⟨block, among, found⟩
  rcases IterationBlock.exists_active_of_range? found with
    ⟨low, high, bounds, lowest, highest⟩
  rcases ((IterationBlock.split_spec
    (mark_ascending active spare)).described block among).sound low high bounds
    with ⟨_, ordered, _, _, highMarked⟩
  have highSmall := small high
    (IndexSet.contains_iff.mp (mem_mark.mp highMarked).2)
  rcases lowest with lowest | ⟨_, lowest⟩ <;>
    rcases highest with highest | ⟨_, highest⟩ <;> omega

/-- A range that another one follows ends at an active iteration, and the other
one begins beyond the next iteration. -/
theorem cover_pairwise (spare : IndexSet)
    (reached : ∀ iteration ∈ active, iteration ≤ lastIteration) :
    (cover active spare lastIteration).Pairwise fun earlier later =>
      earlier.high ∈ active ∧ earlier.high + 2 ≤ later.low := by
  have ascending := mark_ascending active spare
  have divide := IterationBlock.split_spec ascending
  refine List.pairwise_filterMap.mpr ?_
  refine (IterationBlock.split_apart ascending).imp_of_mem ?_
  intro first second firstAmong secondAmong apart earlier found later foundLater
  have between : first.last + 1 < second.first := apart
  rcases IterationBlock.exists_active_of_range? found with
    ⟨_, high, bounds, _, highest⟩
  rcases (divide.described first firstAmong).sound _ _ bounds with
    ⟨_, _, withinFirst, _, highMarked⟩
  rcases IterationBlock.exists_active_of_range? foundLater with
    ⟨low, _, laterBounds, lowest, _⟩
  rcases (divide.described second secondAmong).sound _ _ laterBounds with
    ⟨withinSecond, _, _, lowMarked, _⟩
  -- the later block is active beyond the first one, so that one ends earlier
  have lowReached := reached low
    (IndexSet.contains_iff.mp (mem_mark.mp lowMarked).2)
  have begins : later.low = low := by
    rcases lowest with equal | ⟨atZero, _⟩
    · exact equal
    · omega
  have ends : earlier.high = high := by
    rcases highest with equal | ⟨atEnd, _⟩
    · exact equal
    · omega
  rw [begins, ends]
  exact ⟨IndexSet.contains_iff.mp (mem_mark.mp highMarked).2, by omega⟩

/-- All elements of a list but its last one are related to the last one. -/
theorem exists_related_of_mem_dropLast {α : Type} {Related : α → α → Prop}
    {elements : List α} (related : elements.Pairwise Related) {element : α}
    (member : element ∈ elements.dropLast) :
    ∃ last ∈ elements, Related element last := by
  have inhabited : elements ≠ [] := by
    rintro rfl
    cases member
  refine ⟨elements.getLast inhabited, List.getLast_mem inhabited, ?_⟩
  rw [← List.dropLast_append_getLast inhabited] at related
  exact (List.pairwise_append.mp related).2.2 element member _
    (List.mem_singleton_self _)

/-! ## Ranges that cannot be spared -/

/-- Iterations at which ranges hold, but not everywhere between them, lie in as
many different ranges. -/
theorem length_le_of_separated {iterations : List Nat}
    {ranges : List IterationRange}
    (separated : iterations.Pairwise fun earlier later =>
      ∃ between, earlier ≤ between ∧ between ≤ later ∧
        covers ranges between ≠ true)
    (covered : ∀ iteration ∈ iterations, covers ranges iteration = true) :
    iterations.length ≤ ranges.length := by
  have held : ∀ iteration, ∃ range, iteration ∈ iterations →
      range ∈ ranges ∧ range.low ≤ iteration ∧ iteration ≤ range.high := by
    intro iteration
    by_cases member : iteration ∈ iterations
    · rcases covers_iff.mp (covered iteration member) with
        ⟨range, among, inside⟩
      exact ⟨range, fun _ => ⟨among, inside⟩⟩
    · exact ⟨⟨0, 0⟩, fun absurdly => absurd absurdly member⟩
  choose holder holds using held
  have distinct : (iterations.map holder).Nodup := by
    refine List.pairwise_map.mpr (separated.imp_of_mem ?_)
    rintro earlier later earlierMember laterMember
      ⟨between, atLeast, atMost, outside⟩ same
    rcases holds earlier earlierMember with ⟨among, low, _⟩
    rcases holds later laterMember with ⟨_, _, high⟩
    rw [← same] at high
    exact outside (covers_iff.mpr
      ⟨holder earlier, among, Nat.le_trans low atLeast,
        Nat.le_trans atMost high⟩)
  have among : iterations.map holder ⊆ ranges := by
    intro range member
    rcases List.mem_map.mp member with ⟨iteration, inside, rfl⟩
    exact (holds iteration inside).1
  simpa using (List.subperm_of_subset distinct among).length_le

/-- The first active iteration of each block that has one. -/
def leaders (active spare : IndexSet) : List Nat :=
  (IterationBlock.split (mark active spare)).filterMap fun block =>
    block.active.map (·.1)

/-- Each range of a cover has a leader. -/
theorem length_leaders :
    (leaders active spare).length =
      (cover active spare lastIteration).length := by
  rw [leaders, cover, List.length_filterMap_eq_countP,
    List.length_filterMap_eq_countP]
  congr 1
  funext block
  rw [IterationBlock.range?, Option.isSome_map, Option.isSome_map]

theorem mem_active_of_mem_leaders
    (member : iteration ∈ leaders active spare) : iteration ∈ active := by
  rcases List.mem_filterMap.mp member with ⟨block, among, found⟩
  rcases Option.map_eq_some_iff.mp found with ⟨⟨low, high⟩, bounds, rfl⟩
  rcases ((IterationBlock.split_spec
    (mark_ascending active spare)).described block among).sound low high bounds
    with ⟨_, _, _, lowMarked, _⟩
  exact IndexSet.contains_iff.mp (mem_mark.mp lowMarked).2

/-- Between two leaders lies an iteration that is neither active nor spare. -/
theorem leaders_separated (active spare : IndexSet) :
    (leaders active spare).Pairwise fun earlier later =>
      ∃ between, earlier ≤ between ∧ between ≤ later ∧
        between ∉ active ∧ between ∉ spare := by
  have ascending := mark_ascending active spare
  have divide := IterationBlock.split_spec ascending
  have apart := IterationBlock.split_apart ascending
  refine List.pairwise_filterMap.mpr (apart.imp_of_mem ?_)
  intro first second firstAmong secondAmong between earlier found later
    foundLater
  rcases Option.map_eq_some_iff.mp found with ⟨_, bounds, rfl⟩
  rcases Option.map_eq_some_iff.mp foundLater with ⟨_, laterBounds, rfl⟩
  rcases (divide.described first firstAmong).sound _ _ bounds with
    ⟨_, ordered, within, _⟩
  rcases (divide.described second secondAmong).sound _ _ laterBounds with
    ⟨begins, _⟩
  have gap : first.last + 1 < second.first := between
  refine ⟨first.last + 1, by omega, by omega, ?_, ?_⟩
  · intro member
    exact divide.notMem_after apart firstAmong (mem_mark.mpr ⟨.inr member, rfl⟩)
  · intro member
    exact divide.notMem_after apart firstAmong (mem_mark.mpr ⟨.inl member, rfl⟩)

/-- Ranges that select the active iterations are at least as many as those of
the cover. -/
theorem length_cover_le {ranges : List IterationRange}
    (reached : ∀ iteration ∈ active, iteration ≤ lastIteration)
    (selects : Selects active spare lastIteration ranges) :
    (cover active spare lastIteration).length ≤ ranges.length := by
  rw [← length_leaders]
  apply length_le_of_separated
  · refine (leaders_separated active spare).imp_of_mem ?_
    rintro earlier later _ laterMember
      ⟨between, atLeast, atMost, notActive, notSpare⟩
    have before : between ≤ lastIteration :=
      Nat.le_trans atMost (reached later (mem_active_of_mem_leaders laterMember))
    refine ⟨between, atLeast, atMost, fun holds => notActive ?_⟩
    exact (selects between before fun isSpare => absurd isSpare notSpare).mp
      holds
  · intro iteration member
    have isActive := mem_active_of_mem_leaders member
    exact (selects iteration (reached iteration isActive) fun _ => isActive).mpr
      isActive

/--
Compression gives ranges in order that do not touch.  All but the last one end
at an active iteration, so only the last one can be unbounded.  No ranges that
select the same iterations are fewer.
-/
theorem compress_fewest_ranges (lastSmall : lastIteration ≤ unbounded)
    (inhabited : ∃ iteration, iteration ∈ active)
    (reached : ∀ iteration ∈ active, iteration ≤ lastIteration) :
    ∃ ranges,
      compress active spare lastIteration = .ok ranges ∧
      (∀ range ∈ ranges, range.low ≤ range.high) ∧
      ranges.Pairwise (fun earlier later => earlier.high + 2 ≤ later.low) ∧
      (∀ range ∈ ranges.dropLast,
        range.high ∈ active ∧ range.high < unbounded) ∧
      ∀ others, Selects active spare lastIteration others →
        ranges.length ≤ others.length := by
  have small : ∀ iteration ∈ active, iteration ≤ unbounded :=
    fun iteration member => Nat.le_trans (reached iteration member) lastSmall
  have ordered := cover_pairwise spare reached
  refine ⟨cover active spare lastIteration,
    compress_eq_ok_iff.mpr ⟨inhabited, rfl⟩,
    fun range member => low_le_high_of_mem_cover small member,
    ordered.imp And.right, ?_, fun others selects =>
      length_cover_le reached selects⟩
  intro range member
  rcases exists_related_of_mem_dropLast ordered member with
    ⟨later, among, isActive, beyond⟩
  have representable := (cover_representable small later among).1
  exact ⟨isActive, by omega⟩

/-- One range does not suffice where an iteration between two active ones is not
spare, whatever its bounds are. -/
theorem compress_fewest_twoBlocks :
    compress (.ofList [1, 3, 6, 7]) (.ofList [2]) 7 =
        .ok [⟨1, 3⟩, ⟨6, unbounded⟩] ∧
      ∀ only, ¬ Selects (.ofList [1, 3, 6, 7]) (.ofList [2]) 7 [only] := by
  have found : compress (.ofList [1, 3, 6, 7]) (.ofList [2]) 7 =
      .ok [⟨1, 3⟩, ⟨6, unbounded⟩] := rfl
  rcases @compress_fewest_ranges (.ofList [1, 3, 6, 7]) (.ofList [2]) 7
    (by decide) ⟨1, by decide⟩ (by decide) with
    ⟨ranges, compressed, _, _, _, fewest⟩
  cases compressed.symm.trans found
  refine ⟨found, fun only selects => ?_⟩
  have two : 2 ≤ 1 := fewest [only] selects
  exact absurd two (by decide)

end IterationRange

end SparseLoop
