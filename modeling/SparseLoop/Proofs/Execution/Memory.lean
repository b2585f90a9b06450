import Mathlib.Logic.Function.Basic
import SparseLoop.Proofs.Execution.Landing

/-!
# The memory of a usage function

The second stage of a run performs the actions on the memory.  The memory holds
two arrays of cells, the output pointer and the local inputs.  A cell that was
not written has no value, and every access is checked: an action gets stuck
where it leaves an array, reads a cell without a value or follows a pointer
that was not set.

The row and group functions are not known.  A `Library` says what a function
provides for some inputs; a row function stores it, and a group function adds
it to what is there.
-/

namespace SparseLoop

/-- An array of cells. -/
structure Cells (V : Type) where
  size : Nat
  value : Nat → Option V

namespace Cells

variable {V : Type} {cells : Cells V} {index : Nat} {value : V}
  {contents : Nat → V}

/-- The value of a cell. -/
def read? (cells : Cells V) (index : Nat) : Option V :=
  if index < cells.size then cells.value index else none

/-- The array with a cell set. -/
def write? (cells : Cells V) (index : Nat) (value : V) : Option (Cells V) :=
  if index < cells.size then
    some { cells with
      value := Function.update cells.value index (some value) }
  else
    none

/-- The array with some cells set one after the other. -/
def writeAll? (cells : Cells V) (pairs : List (Nat × V)) :
    Option (Cells V) :=
  pairs.foldlM (fun cells pair => cells.write? pair.1 pair.2) cells

theorem write?_eq_some (inside : index < cells.size) :
    cells.write? index value = some { cells with
      value := Function.update cells.value index (some value) } := by
  rw [write?, if_pos inside]

/-- Cells that are set to one value each can be read back. -/
theorem writeAll?_eq_some {pairs : List (Nat × V)}
    (inside : ∀ pair ∈ pairs, pair.1 < cells.size)
    (distinct : (pairs.map (·.1)).Nodup) :
    ∃ after, cells.writeAll? pairs = some after ∧
      after.size = cells.size ∧
      (∀ pair ∈ pairs, after.value pair.1 = some pair.2) ∧
      ∀ index, index ∉ pairs.map (·.1) →
        after.value index = cells.value index := by
  induction pairs generalizing cells with
  | nil =>
    refine ⟨cells, rfl, rfl, ?_, fun _ _ => rfl⟩
    intro pair member
    cases member
  | cons first rest ih =>
    rw [List.map_cons, List.nodup_cons] at distinct
    obtain ⟨fresh, distinct⟩ := distinct
    have bound := inside first List.mem_cons_self
    obtain ⟨after, written, size, present, absent⟩ :=
      @ih { cells with
          value := Function.update cells.value first.1 (some first.2) }
        (fun pair member => inside pair (List.mem_cons_of_mem _ member))
        distinct
    refine ⟨after, ?_, size, ?_, ?_⟩
    · rw [writeAll?, List.foldlM_cons, write?_eq_some bound]
      exact written
    · intro pair member
      rcases List.mem_cons.mp member with rfl | later
      · rw [absent _ fresh]
        exact Function.update_self _ _ _
      · exact present pair later
    · intro index outside
      rw [List.map_cons, List.mem_cons, not_or] at outside
      rw [absent index outside.2]
      exact Function.update_of_ne outside.1 _ _

/-- All cells of an array have values. -/
def Holds (cells : Cells V) (contents : Nat → V) : Prop :=
  ∀ index < cells.size, cells.value index = some (contents index)

theorem Holds.read?_eq_some (holds : cells.Holds contents)
    (inside : index < cells.size) :
    cells.read? index = some (contents index) := by
  rw [read?, if_pos inside, holds index inside]

section Adding

variable [AddCommMonoid V] {pairs : List (Nat × V)}

/-- The array with a value added to a cell. -/
def add? (cells : Cells V) (index : Nat) (value : V) :
    Option (Cells V) := do
  let before ← cells.read? index
  cells.write? index (before + value)

/-- The array with some values added one after the other. -/
def addAll? (cells : Cells V) (pairs : List (Nat × V)) :
    Option (Cells V) :=
  pairs.foldlM (fun cells pair => cells.add? pair.1 pair.2) cells

/-- The array with the cells below a bound set to zero. -/
def clear? (cells : Cells V) (count : Nat) : Option (Cells V) :=
  if count ≤ cells.size then
    some { cells with
      value := fun index =>
        if index < count then some 0 else cells.value index }
  else
    none

theorem clear?_eq_some (cells : Cells V) :
    ∃ after, cells.clear? cells.size = some after ∧
      after.size = cells.size ∧ after.Holds fun _ => 0 := by
  refine ⟨_, if_pos (Nat.le_refl _), rfl, fun index inside => ?_⟩
  exact if_pos inside

theorem Holds.add?_eq_some (holds : cells.Holds contents)
    (inside : index < cells.size) (value : V) :
    ∃ after, cells.add? index value = some after ∧
      after.size = cells.size ∧
      after.Holds fun position => contents position +
        landing position [(index, value)] := by
  let updated := Function.update cells.value index
    (some (contents index + value))
  refine ⟨{ cells with value := updated }, ?_, rfl, ?_⟩
  · rw [add?, holds.read?_eq_some inside]
    exact write?_eq_some inside
  · intro position bound
    dsimp only
    rw [landing_cons, landing_nil, add_zero]
    by_cases same : index = position
    · subst same
      rw [if_pos rfl]
      exact Function.update_self _ _ _
    · rw [if_neg same, add_zero]
      exact (Function.update_of_ne (Ne.symm same) _ _).trans
        (holds position bound)

/-- Added values land where they are added. -/
theorem Holds.addAll?_eq_some (holds : cells.Holds contents)
    (inside : ∀ pair ∈ pairs, pair.1 < cells.size) :
    ∃ after, cells.addAll? pairs = some after ∧
      after.size = cells.size ∧
      after.Holds fun position =>
        contents position + landing position pairs := by
  induction pairs generalizing cells contents with
  | nil =>
    refine ⟨cells, rfl, rfl, fun index bound => ?_⟩
    dsimp only
    rw [landing_nil, add_zero]
    exact holds index bound
  | cons first rest ih =>
    obtain ⟨middle, added, size, middleHolds⟩ :=
      holds.add?_eq_some (inside first List.mem_cons_self) first.2
    obtain ⟨after, others, sizes, afterHolds⟩ :=
      ih middleHolds fun pair member => by
        rw [size]
        exact inside pair (List.mem_cons_of_mem _ member)
    refine ⟨after, ?_, sizes.trans size, fun position bound => ?_⟩
    · rw [addAll?, List.foldlM_cons, added]
      exact others
    · rw [afterHolds position bound]
      dsimp only
      rw [landing_split position first rest, add_assoc]

/-- Values that are stored in cells without a contribution land there. -/
theorem Holds.writeAll?_eq_some (holds : cells.Holds contents)
    (inside : ∀ pair ∈ pairs, pair.1 < cells.size)
    (distinct : (pairs.map (·.1)).Nodup)
    (unused : ∀ pair ∈ pairs, contents pair.1 = 0) :
    ∃ after, cells.writeAll? pairs = some after ∧
      after.size = cells.size ∧
      after.Holds fun position =>
        contents position + landing position pairs := by
  obtain ⟨after, written, size, present, absent⟩ :=
    Cells.writeAll?_eq_some inside distinct
  refine ⟨after, written, size, fun position bound => ?_⟩
  rw [size] at bound
  dsimp only
  by_cases stored : position ∈ pairs.map (·.1)
  · obtain ⟨pair, member, rfl⟩ := List.mem_map.mp stored
    rw [present pair member, unused pair member, zero_add,
      landing_of_mem distinct member]
  · rw [absent position stored, holds position bound, landing_eq_zero,
      add_zero]
    exact fun pair member same =>
      stored (List.mem_map.mpr ⟨pair, member, same⟩)

end Adding

end Cells

/-! ## Memory and actions -/

/-- What the row and group functions provide: for each function, and for the
key of a group function, the values for the places behind the output pointer,
given the local inputs. -/
structure Library (V : Type) where
  rows : String → (Nat → Option Input) → List (Nat × V)
  keys : String → Nat → (Nat → Option Input) → List (Nat × V)

/-- The memory of a running function. -/
structure Memory (V : Type) where
  cells : Buffer → Cells V
  /-- The buffer that the output pointer points into, and where. -/
  pointer : Option (Buffer × Nat)
  inputs : Nat → Option Input

namespace Memory

variable {V : Type}

/-- The memory with another array in place of a buffer. -/
def withCells (memory : Memory V) (buffer : Buffer) (cells : Cells V) :
    Memory V :=
  { memory with cells := Function.update memory.cells buffer cells }

@[simp]
theorem cells_withCells (memory : Memory V) (buffer : Buffer)
    (cells : Cells V) :
    (memory.withCells buffer cells).cells buffer = cells :=
  Function.update_self _ _ _

theorem cells_withCells_of_ne (memory : Memory V) {buffer other : Buffer}
    (cells : Cells V) (different : other ≠ buffer) :
    (memory.withCells buffer cells).cells other = memory.cells other :=
  Function.update_of_ne different _ _

end Memory

section Actions

variable {V : Type} [AddCommMonoid V]

/-- The memory after an action, with so many local inputs. -/
def Action.perform? (library : Library V) (inputCount : Nat)
    (memory : Memory V) : Action → Option (Memory V)
  | setInput slot input =>
    if slot < inputCount then
      some { memory with
        inputs := Function.update memory.inputs slot (some input) }
    else
      none
  | clear buffer count => do
    let cells ← (memory.cells buffer).clear? count
    pure (memory.withCells buffer cells)
  | point buffer offset =>
    if offset ≤ (memory.cells buffer).size then
      some { memory with pointer := some (buffer, offset) }
    else
      none
  | call function none => do
    let (buffer, offset) ← memory.pointer
    let cells ← (memory.cells buffer).writeAll?
      (behind offset (library.rows function memory.inputs))
    pure (memory.withCells buffer cells)
  | call function (some key) => do
    let (buffer, offset) ← memory.pointer
    let cells ← (memory.cells buffer).addAll?
      (behind offset (library.keys function key memory.inputs))
    pure (memory.withCells buffer cells)
  | add target source => do
    let value ← (memory.cells .scratch).read? source
    let cells ← (memory.cells .result).add? target value
    pure (memory.withCells .result cells)

/-- The memory after some actions. -/
def Action.performAll? (library : Library V) (inputCount : Nat)
    (memory : Memory V) (actions : List Action) : Option (Memory V) :=
  actions.foldlM (Action.perform? library inputCount) memory

end Actions

end SparseLoop
