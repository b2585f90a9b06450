import SparseLoop.Proofs.Index
import SparseLoop.Range.Compression

/-!
# Compression loses nothing and admits only spare iterations

The blocks of an ascending list of marked iterations are described by the
iterations that they contain: each block is filled with marked iterations, and
the bounds of its active part are tight enough.  Every marked iteration lies in
some block.

From these descriptions the cover of a set is exact at every iteration that is
not spare, up to the last iteration.
-/

namespace SparseLoop

namespace IterationBlock

variable {marked : List (Nat × Bool)} {block : IterationBlock}
  {iteration : Nat} {isActive : Bool}

/-- A block is filled with marked iterations, and its active part reaches
from its first to its last active one. -/
structure Describes (block : IterationBlock) (marked : List (Nat × Bool)) :
    Prop where
  ordered : block.first ≤ block.last
  filled : ∀ iteration, block.first ≤ iteration → iteration ≤ block.last →
    ∃ isActive, (iteration, isActive) ∈ marked
  sound : ∀ low high, block.active = some (low, high) →
    block.first ≤ low ∧ low ≤ high ∧ high ≤ block.last ∧
      (low, true) ∈ marked ∧ (high, true) ∈ marked
  tight : ∀ iteration, block.first ≤ iteration → iteration ≤ block.last →
    (iteration, true) ∈ marked →
      ∃ low high, block.active = some (low, high) ∧
        low ≤ iteration ∧ iteration ≤ high

/-- An earlier iteration changes nothing about a block. -/
theorem Describes.later (describes : block.Describes marked)
    (below : iteration < block.first) :
    block.Describes ((iteration, isActive) :: marked) where
  ordered := describes.ordered
  filled other atLeast atMost := by
    obtain ⟨flag, member⟩ := describes.filled other atLeast atMost
    exact ⟨flag, List.mem_cons_of_mem _ member⟩
  sound low high found := by
    obtain ⟨first, ordered, last, lowest, highest⟩ :=
      describes.sound low high found
    exact ⟨first, ordered, last, List.mem_cons_of_mem _ lowest,
      List.mem_cons_of_mem _ highest⟩
  tight other atLeast atMost member := by
    rcases List.mem_cons.mp member with equal | later
    · cases equal
      exact absurd below (Nat.not_lt.mpr atLeast)
    · exact describes.tight other atLeast atMost later

/-- The mark of an iteration before all others is the one in front. -/
theorem isActive_of_mem (smallest : ∀ later ∈ marked, iteration < later.1)
    (member : (iteration, true) ∈ (iteration, isActive) :: marked) :
    isActive = true := by
  rcases List.mem_cons.mp member with equal | later
  · exact (Prod.mk.inj equal).2.symm
  · exact absurd (smallest _ later) (Nat.lt_irrefl iteration)

theorem single_describes
    (smallest : ∀ later ∈ marked, iteration < later.1) :
    (single iteration isActive).Describes
      ((iteration, isActive) :: marked) where
  ordered := Nat.le_refl iteration
  filled other atLeast atMost := by
    obtain rfl : other = iteration := Nat.le_antisymm atMost atLeast
    exact ⟨isActive, List.mem_cons_self⟩
  sound low high found := by
    obtain ⟨active, equal⟩ := Option.ite_none_right_eq_some.mp found
    cases equal
    subst active
    exact ⟨Nat.le_refl _, Nat.le_refl _, Nat.le_refl _,
      List.mem_cons_self, List.mem_cons_self⟩
  tight other atLeast atMost member := by
    obtain rfl : other = iteration := Nat.le_antisymm atMost atLeast
    refine ⟨other, other, ?_, Nat.le_refl _, Nat.le_refl _⟩
    exact if_pos (isActive_of_mem smallest member)

/-- An active iteration in front begins the active part, which ends where it
ended before. -/
theorem extend_active (block : IterationBlock) (iteration : Nat) :
    (block.extend iteration true).active =
      some (iteration, (block.active.map (·.2)).getD iteration) := by
  cases known : block.active <;> simp [IterationBlock.extend, known]

/-- The bounds of the active part stay sound with an iteration in front. -/
theorem Describes.sound_extend (describes : block.Describes marked)
    (adjacent : block.first = iteration + 1) {low high : Nat}
    (found : (block.extend iteration isActive).active = some (low, high)) :
    iteration ≤ low ∧ low ≤ high ∧ high ≤ block.last ∧
      (low, true) ∈ (iteration, isActive) :: marked ∧
      (high, true) ∈ (iteration, isActive) :: marked := by
  have inside := describes.ordered
  cases isActive with
  | false =>
    obtain ⟨first, ordered, last, lowest, highest⟩ :=
      describes.sound low high found
    exact ⟨by omega, ordered, last, List.mem_cons_of_mem _ lowest,
      List.mem_cons_of_mem _ highest⟩
  | true =>
    rw [extend_active] at found
    cases known : block.active with
    | none =>
      rw [known, Option.map_none, Option.getD_none] at found
      cases found
      exact ⟨Nat.le_refl _, Nat.le_refl _, by omega, List.mem_cons_self,
        List.mem_cons_self⟩
    | some bounds =>
      obtain ⟨least, greatest⟩ := bounds
      rw [known, Option.map_some, Option.getD_some] at found
      cases found
      obtain ⟨first, ordered, last, _, highest⟩ :=
        describes.sound least _ known
      exact ⟨Nat.le_refl _, by omega, last, List.mem_cons_self,
        List.mem_cons_of_mem _ highest⟩

/-- The active part of a block with an active iteration in front reaches from
there over the active part it had. -/
theorem Describes.tight_extend (describes : block.Describes marked)
    (adjacent : block.first = iteration + 1)
    (smallest : ∀ later ∈ marked, iteration < later.1) {other : Nat}
    (atLeast : iteration ≤ other) (atMost : other ≤ block.last)
    (member : (other, true) ∈ (iteration, isActive) :: marked) :
    ∃ low high, (block.extend iteration isActive).active =
        some (low, high) ∧ low ≤ other ∧ other ≤ high := by
  rcases List.mem_cons.mp member with equal | later
  · cases equal
    rw [extend_active]
    refine ⟨_, _, rfl, Nat.le_refl _, ?_⟩
    cases known : block.active with
    | none => exact Nat.le_refl _
    | some bounds =>
      obtain ⟨least, greatest⟩ := bounds
      have soundness := describes.sound least greatest known
      show iteration ≤ greatest
      omega
  · have above : iteration < other := smallest _ later
    obtain ⟨low, high, found, atLow, atHigh⟩ :=
      describes.tight other (by omega) atMost later
    cases isActive with
    | false => exact ⟨low, high, found, atLow, atHigh⟩
    | true =>
      rw [extend_active, found]
      exact ⟨_, _, rfl, atLeast, atHigh⟩

theorem Describes.extend (describes : block.Describes marked)
    (adjacent : block.first = iteration + 1)
    (smallest : ∀ later ∈ marked, iteration < later.1) :
    (block.extend iteration isActive).Describes
      ((iteration, isActive) :: marked) where
  ordered := by
    have inside := describes.ordered
    show iteration ≤ block.last
    omega
  filled other atLeast atMost := by
    rcases Nat.eq_or_lt_of_le atLeast with equal | above
    · have same : other = iteration := equal.symm
      subst same
      exact ⟨isActive, List.mem_cons_self⟩
    · have within : block.first ≤ other := by
        rw [adjacent]
        exact above
      obtain ⟨flag, member⟩ := describes.filled other within atMost
      exact ⟨flag, List.mem_cons_of_mem _ member⟩
  sound _ _ found := describes.sound_extend adjacent found
  tight _ atLeast atMost member :=
    describes.tight_extend adjacent smallest atLeast atMost member

/-- Blocks that are described by marked iterations and contain all of them. -/
structure Divide (blocks : List IterationBlock)
    (marked : List (Nat × Bool)) : Prop where
  described : ∀ block ∈ blocks, block.Describes marked
  covered : ∀ entry ∈ marked, ∃ block ∈ blocks,
    block.first ≤ entry.1 ∧ entry.1 ≤ block.last

/-- A block of its own for an iteration in front. -/
theorem Divide.addSingle {blocks : List IterationBlock}
    (divide : Divide blocks marked)
    (smallest : ∀ later ∈ marked, iteration < later.1) :
    Divide (single iteration isActive :: blocks)
      ((iteration, isActive) :: marked) where
  described block among := by
    rcases List.mem_cons.mp among with equal | later
    · rw [equal]
      exact single_describes smallest
    · have describes := divide.described block later
      obtain ⟨flag, member⟩ := describes.filled block.first
        (Nat.le_refl _) describes.ordered
      exact describes.later (smallest _ member)
  covered entry member := by
    rcases List.mem_cons.mp member with equal | later
    · rw [equal]
      exact ⟨_, List.mem_cons_self, Nat.le_refl _, Nat.le_refl _⟩
    · obtain ⟨other, among, inside⟩ := divide.covered entry later
      exact ⟨other, List.mem_cons_of_mem _ among, inside⟩

/-- The first block is extended by an iteration in front. -/
theorem Divide.extendFirst {blocks : List IterationBlock}
    (divide : Divide (block :: blocks) marked)
    (adjacent : block.first = iteration + 1)
    (smallest : ∀ later ∈ marked, iteration < later.1) :
    Divide (block.extend iteration isActive :: blocks)
      ((iteration, isActive) :: marked) where
  described other among := by
    rcases List.mem_cons.mp among with equal | later
    · rw [equal]
      exact (divide.described block List.mem_cons_self).extend adjacent
        smallest
    · exact (divide.addSingle smallest).described other
        (List.mem_cons_of_mem _ (List.mem_cons_of_mem _ later))
  covered entry member := by
    have inside := (divide.described block List.mem_cons_self).ordered
    rcases List.mem_cons.mp member with equal | later
    · rw [equal]
      refine ⟨_, List.mem_cons_self, Nat.le_refl _, ?_⟩
      show iteration ≤ block.last
      omega
    · obtain ⟨other, among, atLeast, atMost⟩ := divide.covered entry later
      rcases List.mem_cons.mp among with equal | further
      · rw [equal] at atLeast atMost
        refine ⟨_, List.mem_cons_self, ?_, atMost⟩
        show iteration ≤ entry.1
        omega
      · exact ⟨other, List.mem_cons_of_mem _ further, atLeast, atMost⟩

theorem Divide.addFront {blocks : List IterationBlock}
    (divide : Divide blocks marked)
    (smallest : ∀ later ∈ marked, iteration < later.1) :
    Divide (addFront (iteration, isActive) blocks)
      ((iteration, isActive) :: marked) := by
  cases blocks with
  | nil => exact divide.addSingle smallest
  | cons block others =>
    rw [IterationBlock.addFront]
    split
    · next adjacent => exact divide.extendFirst adjacent smallest
    · exact divide.addSingle smallest

/-- The blocks of an ascending list are described by it, and every marked
iteration lies in one of them. -/
theorem split_spec
    (ascending : marked.Pairwise fun left right => left.1 < right.1) :
    Divide (split marked) marked := by
  induction marked with
  | nil => exact ⟨by simp [split], by simp⟩
  | cons entry rest ih =>
    obtain ⟨smallest, ascending⟩ := List.pairwise_cons.mp ascending
    exact (ih ascending).addFront smallest

end IterationBlock

namespace IterationRange

variable {active spare : IndexSet} {lastIteration iteration : Nat}

theorem mark_ascending (active spare : IndexSet) :
    (mark active spare).Pairwise fun left right => left.1 < right.1 :=
  List.pairwise_map.mpr (spare.union active).ascending

theorem mem_mark {isActive : Bool} :
    (iteration, isActive) ∈ mark active spare ↔
      (iteration ∈ spare ∨ iteration ∈ active) ∧
        active.contains iteration = isActive := by
  rw [mark, List.mem_map]
  constructor
  · rintro ⟨_, member, equal⟩
    cases equal
    exact ⟨IndexSet.mem_union.mp member, rfl⟩
  · rintro ⟨member, rfl⟩
    exact ⟨iteration, IndexSet.mem_union.mpr member, rfl⟩

theorem covers_iff {ranges : List IterationRange} :
    covers ranges iteration = true ↔
      ∃ range ∈ ranges, range.low ≤ iteration ∧ iteration ≤ range.high := by
  simp [covers, contains]

theorem mem_cover {range : IterationRange} :
    range ∈ cover active spare lastIteration ↔
      ∃ block ∈ IterationBlock.split (mark active spare),
        block.range? lastIteration = some range :=
  List.mem_filterMap

/-- A range of a cover holds up to the last iteration only at active and at
spare iterations. -/
theorem mem_active_of_covers (reached : iteration ≤ lastIteration)
    (decisive : iteration ∈ spare → iteration ∈ active)
    (holds : covers (cover active spare lastIteration) iteration = true) :
    iteration ∈ active := by
  obtain ⟨range, member, atLeast, atMost⟩ := covers_iff.mp holds
  obtain ⟨block, among, found⟩ := mem_cover.mp member
  obtain ⟨⟨low, high⟩, bounds, equal⟩ := Option.map_eq_some_iff.mp found
  have describes := (IterationBlock.split_spec
    (mark_ascending active spare)).described block among
  obtain ⟨first, ordered, last, lowest, highest⟩ :=
    describes.sound low high bounds
  dsimp only at equal
  split at equal
  · next single =>
    cases equal
    simp only at atLeast atMost
    obtain rfl : iteration = low := by omega
    exact IndexSet.contains_iff.mp (mem_mark.mp lowest).2
  · cases equal
    simp only at atLeast atMost
    have inside : block.first ≤ iteration ∧ iteration ≤ block.last := by
      split at atLeast <;> split at atMost <;> omega
    obtain ⟨isActive, marked⟩ :=
      describes.filled iteration inside.1 inside.2
    rcases (mem_mark.mp marked).1 with isSpare | isActive
    · exact decisive isSpare
    · exact isActive

theorem exists_range? {block : IterationBlock} {bounds : Nat × Nat}
    (bounded : block.active = some bounds) (lastIteration : Nat) :
    ∃ range, block.range? lastIteration = some range := by
  rw [IterationBlock.range?, bounded]
  exact ⟨_, rfl⟩

/-- An active iteration lies between the active bounds of a block. -/
theorem exists_block (spare : IndexSet) (member : iteration ∈ active) :
    ∃ block ∈ IterationBlock.split (mark active spare),
      block.first ≤ iteration ∧ iteration ≤ block.last ∧
      ∃ low high, block.active = some (low, high) ∧ low ≤ iteration ∧
        iteration ≤ high := by
  have divide := IterationBlock.split_spec (mark_ascending active spare)
  have marked : (iteration, true) ∈ mark active spare :=
    mem_mark.mpr ⟨.inr member, IndexSet.contains_iff.mpr member⟩
  obtain ⟨block, among, atFirst, atLast⟩ := divide.covered _ marked
  exact ⟨block, among, atFirst, atLast,
    (divide.described block among).tight iteration atFirst atLast marked⟩

/-- A cover holds at the active iterations. -/
theorem covers_of_mem_active (representable : iteration ≤ unbounded)
    (member : iteration ∈ active) :
    covers (cover active spare lastIteration) iteration = true := by
  obtain ⟨block, among, atFirst, atLast, low, high, bounds, atLow, atHigh⟩ :=
    exists_block spare member
  obtain ⟨range, found⟩ := exists_range? bounds lastIteration
  refine covers_iff.mpr ⟨range, mem_cover.mpr ⟨block, among, found⟩, ?_⟩
  rw [IterationBlock.range?, bounds, Option.map_some,
    Option.some.injEq] at found
  dsimp only at found
  rw [← found]
  split
  · exact ⟨atLow, atHigh⟩
  · constructor
    · show (if block.first = 0 then 0 else low) ≤ iteration
      split <;> omega
    · show iteration ≤
        if block.last = lastIteration then unbounded else high
      split <;> omega

/-- Up to the last iteration, a cover holds exactly at the active iterations
and perhaps at spare ones. -/
theorem covers_cover_iff (reached : iteration ≤ lastIteration)
    (representable : iteration ≤ unbounded)
    (decisive : iteration ∈ spare → iteration ∈ active) :
    covers (cover active spare lastIteration) iteration = true ↔
      iteration ∈ active :=
  ⟨mem_active_of_covers reached decisive,
    covers_of_mem_active representable⟩

/-- The bounds of a cover are words if the active iterations are. -/
theorem cover_representable
    (representable : ∀ iteration ∈ active, iteration ≤ unbounded) :
    ∀ range ∈ cover active spare lastIteration,
      range.low ≤ unbounded ∧ range.high ≤ unbounded := by
  intro range member
  obtain ⟨block, among, found⟩ := mem_cover.mp member
  obtain ⟨⟨low, high⟩, bounds, equal⟩ := Option.map_eq_some_iff.mp found
  have divide := IterationBlock.split_spec (mark_ascending active spare)
  obtain ⟨_, _, _, lowest, highest⟩ :=
    (divide.described block among).sound low high bounds
  have lowSmall := representable low
    (IndexSet.contains_iff.mp (mem_mark.mp lowest).2)
  have highSmall := representable high
    (IndexSet.contains_iff.mp (mem_mark.mp highest).2)
  dsimp only at equal
  split at equal
  · cases equal
    exact ⟨lowSmall, highSmall⟩
  · cases equal
    constructor
    · show (if block.first = 0 then 0 else low) ≤ unbounded
      split
      · exact Nat.zero_le _
      · exact lowSmall
    · show (if block.last = lastIteration then unbounded else high) ≤
        unbounded
      split
      · exact Nat.le_refl _
      · exact highSmall

theorem cover_ne_nil (inhabited : ∃ iteration, iteration ∈ active) :
    cover active spare lastIteration ≠ [] := by
  obtain ⟨iteration, member⟩ := inhabited
  obtain ⟨block, among, _, _, low, high, bounds, _⟩ :=
    exists_block spare member
  obtain ⟨range, found⟩ := exists_range? bounds lastIteration
  exact List.ne_nil_of_mem (mem_cover.mpr ⟨block, among, found⟩)

theorem compress_eq_ok_iff {ranges : List IterationRange} :
    compress active spare lastIteration = .ok ranges ↔
      (∃ iteration, iteration ∈ active) ∧
        cover active spare lastIteration = ranges := by
  rw [compress]
  split
  · next empty =>
    constructor
    · intro found
      cases found
    · rintro ⟨⟨iteration, member⟩, _⟩
      exact absurd member (IndexSet.isEmpty_iff.mp empty iteration)
  · next filled =>
    have inhabited : ∃ iteration, iteration ∈ active := by
      by_contra none
      exact filled (IndexSet.isEmpty_iff.mpr (not_exists.mp none))
    simp [inhabited]

end IterationRange

end SparseLoop
