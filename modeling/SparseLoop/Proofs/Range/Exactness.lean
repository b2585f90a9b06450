import Mathlib.Algebra.Group.Even
import SparseLoop.Proofs.Range.Compression

/-!
# Compression of words is exact

Iterations are 64-bit words.  To see whether one iteration follows another, the
scan of the blocks adds one to the earlier of the two, and the largest word has
no successor.  The scan of this module fails where such a sum is not a word.  It
never does, because the sum is only asked for where a larger word is marked, so
it finds the same blocks.

`compress_selects_active` joins this with the description of the blocks: ranges
are given for every set of active iterations, and up to the last iteration they
hold exactly there, spare iterations left aside.
-/

namespace SparseLoop

namespace IterationBlock

variable {marked : List (Nat × Bool)} {blocks : List IterationBlock}
  {iteration : Nat} {isActive : Bool}

/-- The iteration after another one, if it is a word. -/
def next? (iteration : Nat) : Option Nat :=
  if iteration < IterationRange.unbounded then
    some (iteration + 1)
  else
    none

/-- An iteration joins the block that begins just after it, unless the sum that
tells where this is overflows. -/
def addFront? (entry : Nat × Bool) :
    List IterationBlock → Option (List IterationBlock)
  | [] => some [single entry.1 entry.2]
  | block :: rest => do
    let next ← next? entry.1
    if block.first = next then
      some (block.extend entry.1 entry.2 :: rest)
    else
      some (single entry.1 entry.2 :: block :: rest)

/-- The blocks of an ascending list of marked iterations, unless a sum
overflows. -/
def split? (marked : List (Nat × Bool)) : Option (List IterationBlock) :=
  marked.foldrM addFront? []

/-- An iteration that a larger word follows is no last word. -/
theorem next?_eq_some {later : Nat} (below : iteration < later)
    (representable : later ≤ IterationRange.unbounded) :
    next? iteration = some (iteration + 1) := by
  rw [next?, if_pos]
  exact Nat.lt_of_lt_of_le below representable

theorem addFront?_eq_some
    (follow : ∀ block ∈ blocks, iteration < block.first ∧
      block.first ≤ IterationRange.unbounded) :
    addFront? (iteration, isActive) blocks =
      some (addFront (iteration, isActive) blocks) := by
  cases blocks with
  | nil => rfl
  | cons block rest =>
    rcases follow block List.mem_cons_self with ⟨below, representable⟩
    rw [addFront?, next?_eq_some below representable, Option.bind_eq_bind,
      Option.bind_some, addFront]
    split <;> rfl

/-- The first iteration of each block is a marked one. -/
theorem Divide.first_mem (divide : Divide blocks marked)
    {block : IterationBlock} (among : block ∈ blocks) :
    ∃ isActive, (block.first, isActive) ∈ marked :=
  (divide.described block among).filled block.first (Nat.le_refl _)
    (divide.described block among).ordered

/-- No sum overflows in the scan of an ascending list of words. -/
theorem split?_eq_some
    (ascending : marked.Pairwise fun left right => left.1 < right.1)
    (representable : ∀ entry ∈ marked,
      entry.1 ≤ IterationRange.unbounded) :
    split? marked = some (split marked) := by
  induction marked with
  | nil => rfl
  | cons entry rest ih =>
    rcases List.pairwise_cons.mp ascending with ⟨smallest, restAscending⟩
    have restSmall : ∀ later ∈ rest,
        later.1 ≤ IterationRange.unbounded :=
      fun later member => representable later (List.mem_cons_of_mem entry member)
    have scanned : rest.foldrM addFront? [] = some (split rest) :=
      ih restAscending restSmall
    rw [split?, List.foldrM_cons, scanned, Option.bind_eq_bind,
      Option.bind_some]
    apply addFront?_eq_some
    intro block among
    rcases (split_spec restAscending).first_mem among with ⟨_, member⟩
    exact ⟨smallest _ member, restSmall _ member⟩

end IterationBlock

namespace IterationRange

variable {active spare : IndexSet} {lastIteration : Nat}

/-- The cover of a set of active iterations, unless a sum overflows. -/
def cover? (active spare : IndexSet) (lastIteration : Nat) :
    Option (List IterationRange) := do
  let blocks ← IterationBlock.split? (mark active spare)
  some (blocks.filterMap (IterationBlock.range? lastIteration))

/-- Up to a last iteration, ranges hold at the active iterations, and at others
only if these are spare. -/
def Selects (active spare : IndexSet) (lastIteration : Nat)
    (ranges : List IterationRange) : Prop :=
  ∀ iteration ≤ lastIteration, (iteration ∈ spare → iteration ∈ active) →
    (covers ranges iteration = true ↔ iteration ∈ active)

theorem selects_cover (lastSmall : lastIteration ≤ unbounded) :
    Selects active spare lastIteration (cover active spare lastIteration) :=
  fun _ reached decisive =>
    covers_cover_iff reached (Nat.le_trans reached lastSmall) decisive

theorem cover?_eq_some
    (activeSmall : ∀ iteration ∈ active, iteration ≤ unbounded)
    (spareSmall : ∀ iteration ∈ spare, iteration ≤ unbounded) :
    cover? active spare lastIteration =
      some (cover active spare lastIteration) := by
  have scanned : IterationBlock.split? (mark active spare) =
      some (IterationBlock.split (mark active spare)) := by
    apply IterationBlock.split?_eq_some (mark_ascending active spare)
    rintro ⟨iteration, isActive⟩ member
    rcases (mem_mark.mp member).1 with isSpare | isActive
    · exact spareSmall iteration isSpare
    · exact activeSmall iteration isActive
  rw [cover?, scanned]
  rfl

theorem length_bounds (ranges : List IterationRange) :
    (bounds ranges).length = ranges.length + ranges.length := by
  induction ranges with
  | nil => rfl
  | cons range rest ih =>
    have step : bounds (range :: rest) =
        range.low :: range.high :: bounds rest := rfl
    rw [step, List.length_cons, List.length_cons, List.length_cons, ih]
    omega

theorem mem_bounds {ranges : List IterationRange} {bound : Nat} :
    bound ∈ bounds ranges ↔
      ∃ range ∈ ranges, bound = range.low ∨ bound = range.high := by
  simp [bounds]

/--
Ranges are found for every set of active iterations that is not empty and has no
iteration after the last one, whatever words are spare.  No sum overflows while
they are found.  Their bounds are words, two for each range, and read back they
hold up to the last iteration exactly at the active iterations, where those that
are only spare do not matter.
-/
theorem compress_selects_active (lastSmall : lastIteration ≤ unbounded)
    (inhabited : ∃ iteration, iteration ∈ active)
    (reached : ∀ iteration ∈ active, iteration ≤ lastIteration)
    (spareSmall : ∀ iteration ∈ spare, iteration ≤ unbounded) :
    ∃ ranges,
      compress active spare lastIteration = .ok ranges ∧
      cover? active spare lastIteration = some ranges ∧
      Even (bounds ranges).length ∧
      (∀ bound ∈ bounds ranges, bound ≤ unbounded) ∧
      Selects active spare lastIteration (ofBounds (bounds ranges)) := by
  have activeSmall : ∀ iteration ∈ active, iteration ≤ unbounded :=
    fun iteration member => Nat.le_trans (reached iteration member) lastSmall
  refine ⟨cover active spare lastIteration,
    compress_eq_ok_iff.mpr ⟨inhabited, rfl⟩,
    cover?_eq_some activeSmall spareSmall, ⟨_, length_bounds _⟩, ?_, ?_⟩
  · intro bound member
    rcases mem_bounds.mp member with ⟨range, among, equal | equal⟩
    · rw [equal]
      exact (cover_representable activeSmall range among).1
    · rw [equal]
      exact (cover_representable activeSmall range among).2
  · rw [ofBounds_bounds]
    exact selects_cover lastSmall

/-- Active iterations at both ends of the words. -/
def outermostActive : IndexSet :=
  .ofList [0, 2, unbounded - 2, unbounded]

/-- The iterations between them that are spare. -/
def outermostSpare : IndexSet :=
  .ofList [1, unbounded - 1]

/-- The first and the last word are active, and the last one is also the last
iteration. -/
theorem compress_selects_outermost :
    (∀ iteration ∈ outermostActive, iteration ≤ unbounded) ∧
      (∀ iteration ∈ outermostSpare, iteration ≤ unbounded) ∧
      compress outermostActive outermostSpare unbounded =
        .ok [⟨0, 2⟩, ⟨unbounded - 2, unbounded⟩] ∧
      cover? outermostActive outermostSpare unbounded =
        some [⟨0, 2⟩, ⟨unbounded - 2, unbounded⟩] ∧
      Selects outermostActive outermostSpare unbounded
        (ofBounds [0, 2, unbounded - 2, unbounded]) := by
  have activeSmall : ∀ iteration ∈ outermostActive, iteration ≤ unbounded := by
    decide
  have spareSmall : ∀ iteration ∈ outermostSpare, iteration ≤ unbounded := by
    decide
  rcases compress_selects_active (Nat.le_refl unbounded) ⟨0, by decide⟩
    activeSmall spareSmall with ⟨ranges, compressed, scanned, _, _, selects⟩
  have found : compress outermostActive outermostSpare unbounded =
      .ok [⟨0, 2⟩, ⟨unbounded - 2, unbounded⟩] := rfl
  cases compressed.symm.trans found
  exact ⟨activeSmall, spareSmall, found, scanned, selects⟩

end IterationRange

end SparseLoop
