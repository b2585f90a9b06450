import SparseLoop.Proofs.Execution.Memory

/-!
# The effect of an invocation

Between two invocations all cells of the result have values, the local inputs
are prepared, and the output pointer points to the scratch buffer where this is
known.  An invocation of a row or of a key preserves this and adds the
contributions of the row or of the key to the result.

A row function stores what it provides.  In place this is right because nothing
was contributed to these cells before.
-/

namespace SparseLoop

open Traversal

section Steps

variable {V : Type}

/-- What is known of the memory between two invocations. -/
structure Memory.Between (memory : Memory V) (inputs : Nat → Option Input)
    (entryCount scratchSize : Nat) (contents : Nat → V)
    (atScratch : Bool) : Prop where
  inputs : memory.inputs = inputs
  entryCount : (memory.cells .result).size = entryCount
  scratchSize : (memory.cells .scratch).size = scratchSize
  holds : (memory.cells .result).Holds contents
  pointer : atScratch = true → memory.pointer = some (.scratch, 0)

variable {inputs : Nat → Option Input} {entryCount scratchSize : Nat}
  {contents : Nat → V} {atScratch : Bool} {memory : Memory V}

namespace Memory.Between

theorem congr {other : Nat → V}
    (between : memory.Between inputs entryCount scratchSize contents
      atScratch)
    (same : ∀ position, contents position = other position) :
    memory.Between inputs entryCount scratchSize other atScratch := by
  rw [← funext same]
  exact between

/-- The result may change, and with it what is known. -/
theorem withResult
    (between : memory.Between inputs entryCount scratchSize contents
      atScratch)
    {cells : Cells V} {other : Nat → V} (size : cells.size = entryCount)
    (holds : cells.Holds other) :
    (memory.withCells .result cells).Between inputs entryCount scratchSize
      other atScratch where
  inputs := between.inputs
  entryCount := by rw [cells_withCells, size]
  scratchSize := by
    rw [cells_withCells_of_ne _ _ Buffer.noConfusion, between.scratchSize]
  holds := by rw [cells_withCells]; exact holds
  pointer := between.pointer

/-- What is in the scratch buffer does not matter. -/
theorem withScratch
    (between : memory.Between inputs entryCount scratchSize contents
      atScratch)
    {cells : Cells V} (size : cells.size = scratchSize) :
    (memory.withCells .scratch cells).Between inputs entryCount scratchSize
      contents atScratch where
  inputs := between.inputs
  entryCount := by
    rw [cells_withCells_of_ne _ _ Buffer.noConfusion, between.entryCount]
  scratchSize := by rw [cells_withCells, size]
  holds := by
    rw [cells_withCells_of_ne _ _ Buffer.noConfusion]
    exact between.holds
  pointer := between.pointer

end Memory.Between

variable [AddCommMonoid V] {library : Library V} {inputCount : Nat}

theorem Action.performAll?_append {before middle after : Memory V}
    {first second : List Action}
    (front : performAll? library inputCount before first = some middle)
    (back : performAll? library inputCount middle second = some after) :
    performAll? library inputCount before (first ++ second) =
      some after := by
  rw [performAll?, List.foldlM_append]
  exact (congrArg (· >>= _) front).trans back

theorem Action.performAll?_singleton (library : Library V)
    (inputCount : Nat) (memory : Memory V) (action : Action) :
    performAll? library inputCount memory [action] =
      action.perform? library inputCount memory := by
  rw [performAll?, List.foldlM_cons]
  cases action.perform? library inputCount memory <;> rfl

/-! ## The parts of an invocation -/

namespace Invocation

variable {invocation : Invocation}

/-- Where the output pointer has to point during the call. -/
def target (invocation : Invocation) : Buffer × Nat :=
  match invocation.place with
  | some offset => (.result, offset)
  | none => (.scratch, 0)

/-- After the pointer was set, or where it was not, it points to the target. -/
theorem performs_pointer (library : Library V) (inputCount : Nat)
    (between : memory.Between inputs entryCount scratchSize contents
      atScratch)
    (pointed : invocation.IsPointed atScratch)
    (inside : ∀ offset, invocation.place = some offset →
      offset ≤ entryCount) :
    ∃ middle, Action.performAll? library inputCount memory
        (if invocation.setsPointer then [invocation.pointer] else []) =
          some middle ∧
      middle.pointer = some invocation.target ∧
      middle.Between inputs entryCount scratchSize contents
        invocation.place.isNone := by
  cases sets : invocation.setsPointer with
  | true =>
    have action : invocation.pointer =
        .point invocation.target.1 invocation.target.2 := by
      rw [pointer, target]
      cases invocation.place <;> rfl
    have bound : invocation.target.2 ≤
        (memory.cells invocation.target.1).size := by
      rw [target]
      cases placed : invocation.place with
      | some offset =>
        exact between.entryCount.symm ▸ inside offset placed
      | none => exact Nat.zero_le _
    refine ⟨{ memory with pointer := some invocation.target }, ?_, rfl,
      ⟨between.inputs, between.entryCount, between.scratchSize,
        between.holds, ?_⟩⟩
    · rw [if_pos rfl, Action.performAll?_singleton, action,
        Action.perform?, if_pos bound]
    · intro unplaced
      rw [target, Option.isNone_iff_eq_none.mp unplaced]
  | false =>
    rcases pointed with set | ⟨known, unplaced⟩
    · rw [sets] at set
      cases set
    · have here := between.pointer known
      refine ⟨memory, rfl, ?_, ⟨between.inputs, between.entryCount,
        between.scratchSize, between.holds, fun _ => here⟩⟩
      rw [here, target, unplaced]

/-- An invocation in place begins with the pointer at its offset. -/
theorem performs_pointer_inPlace (library : Library V) (inputCount : Nat)
    (between : memory.Between inputs entryCount scratchSize contents
      atScratch)
    (pointed : invocation.IsPointed atScratch) {start : Nat}
    (placed : invocation.place = some start) (bound : start < entryCount) :
    ∃ middle, Action.performAll? library inputCount memory
        (if invocation.setsPointer then [invocation.pointer] else []) =
          some middle ∧
      middle.pointer = some (.result, start) ∧
      middle.Between inputs entryCount scratchSize contents
        invocation.place.isNone := by
  have inside : ∀ offset, invocation.place = some offset →
      offset ≤ entryCount := by
    intro offset equal
    rw [placed] at equal
    cases equal
    exact Nat.le_of_lt bound
  have performed :=
    performs_pointer library inputCount between pointed inside
  rw [target, placed] at performed
  rw [placed]
  exact performed

/-- Any other invocation begins with the pointer at the scratch buffer. -/
theorem performs_pointer_scratch (library : Library V) (inputCount : Nat)
    (between : memory.Between inputs entryCount scratchSize contents
      atScratch)
    (pointed : invocation.IsPointed atScratch)
    (unplaced : invocation.place = none) :
    ∃ middle, Action.performAll? library inputCount memory
        (if invocation.setsPointer then [invocation.pointer] else []) =
          some middle ∧
      middle.pointer = some (.scratch, 0) ∧
      middle.Between inputs entryCount scratchSize contents
        invocation.place.isNone := by
  have inside : ∀ offset, invocation.place = some offset →
      offset ≤ entryCount := by
    intro offset equal
    rw [unplaced] at equal
    cases equal
  have performed :=
    performs_pointer library inputCount between pointed inside
  rw [target, unplaced] at performed
  rw [unplaced]
  exact performed

/-- Copies add what they read where they go. -/
theorem performs_copies (library : Library V) (inputCount : Nat)
    (between : memory.Between inputs entryCount scratchSize contents
      atScratch)
    (stored : Nat → V) {copies : List (Nat × Nat)}
    (reads : ∀ copy ∈ copies,
      (memory.cells .scratch).read? copy.2 = some (stored copy.2))
    (inside : ∀ copy ∈ copies, copy.1 < entryCount) :
    ∃ later, Action.performAll? library inputCount memory
        (copies.map fun (target, source) => .add target source) =
          some later ∧
      later.Between inputs entryCount scratchSize
        (fun position => contents position + landing position
          (copies.map fun (target, source) => (target, stored source)))
        atScratch := by
  induction copies generalizing memory contents with
  | nil =>
    refine ⟨memory, rfl, between.congr fun position => ?_⟩
    rw [List.map_nil, landing_nil, add_zero]
  | cons copy rest ih =>
    obtain ⟨target, source⟩ := copy
    have bound : target < (memory.cells .result).size :=
      between.entryCount.symm ▸ inside _ List.mem_cons_self
    obtain ⟨cells, added, size, holds⟩ :=
      between.holds.add?_eq_some bound (stored source)
    have next := between.withResult (size.trans between.entryCount) holds
    obtain ⟨later, performed, laterBetween⟩ :=
      ih next (fun copy member => by
        rw [Memory.cells_withCells_of_ne _ _ Buffer.noConfusion]
        exact reads copy (List.mem_cons_of_mem _ member))
        fun copy member => inside copy (List.mem_cons_of_mem _ member)
    refine ⟨later, ?_, laterBetween.congr fun position => ?_⟩
    · have one : Action.perform? library inputCount memory
          (.add target source) = some (memory.withCells .result cells) := by
        rw [Action.perform?, reads _ List.mem_cons_self]
        simp [added]
      exact (congrArg (· >>= _) one).trans performed
    · dsimp only
      rw [List.map_cons, add_assoc, ← landing_split]

end Invocation

/-! ## Rows and keys -/

/-- The functions of a description provide some values, for some inputs. -/
structure Library.Provides (library : Library V) (options : Options)
    (naming : GroupNaming) (sparsity : Sparsity)
    (inputs : Nat → Option Input) (rowValue : Nat → Nat → V)
    (keyValue : Nat → Nat → Nat → Nat → V) : Prop where
  rows : ∀ entry ∈ sparsity.rowElements.entries,
    (library.rows (options.rowFunction entry.1) inputs).Perm
      (entry.2.toList.map fun element =>
        (element, rowValue entry.1 element))
  keys : ∀ served ∈ sparsity.groupKeys,
    (library.keys (naming options.modelName served.loop served.group)
      served.key inputs).Perm
      (served.provided.toList.map fun element =>
        (element,
          keyValue served.loop served.group served.key element))

namespace Invocation

variable {invocation : Invocation} {options : Options}
  {naming : GroupNaming} {sparsity : Sparsity} {rowValue : Nat → Nat → V}
  {keyValue : Nat → Nat → Nat → Nat → V} {row : Nat} {provided : IndexSet}

/-- The call of a row function stores what the row provides. -/
theorem performs_rowCall (inputCount : Nat) {buffer : Buffer} {offset : Nat}
    {stored : List (Nat × V)} {function : String} {after : Cells V}
    (pointed : memory.pointer = some (buffer, offset))
    (provides : library.rows function memory.inputs = stored)
    (written : (memory.cells buffer).writeAll? (behind offset stored) =
      some after) :
    Action.performAll? library inputCount memory [.call function none] =
      some (memory.withCells buffer after) := by
  rw [Action.performAll?_singleton, Action.perform?, pointed]
  simp [provides, written]

/-- The call of a group function adds what the key provides. -/
theorem performs_keyCall (inputCount : Nat) {buffer : Buffer} {offset key : Nat}
    {added : List (Nat × V)} {function : String} {after : Cells V}
    (pointed : memory.pointer = some (buffer, offset))
    (provides : library.keys function key memory.inputs = added)
    (written : (memory.cells buffer).addAll? (behind offset added) =
      some after) :
    Action.performAll? library inputCount memory
        [.call function (some key)] =
      some (memory.withCells buffer after) := by
  rw [Action.performAll?_singleton, Action.perform?, pointed]
  simp [provides, written]

/-- In place, the call of a row function stores the row's contributions. -/
theorem performs_rowInPlace {start : Nat} {function : String}
    (consecutive : sparsity.locations.ConsecutiveFrom row provided start)
    (provides : (library.rows function inputs).Perm
      (provided.toList.map fun element => (element, rowValue row element)))
    (below : sparsity.locations.Below entryCount)
    (unused : ∀ element ∈ provided,
      ∀ position ∈ sparsity.locations.targets row element,
        contents position = 0)
    (pointed : memory.pointer = some (.result, start))
    (between : memory.Between inputs entryCount scratchSize contents
      atScratch) :
    ∃ later, Action.performAll? library inputCount memory
        [.call function none] = some later ∧
      later.Between inputs entryCount scratchSize
        (fun position => contents position + landing position
          (sparsity.rowContributions rowValue row provided))
        atScratch := by
  obtain ⟨distinct, among, _⟩ := provided_of_perm provides
  have reached : ∀ pair ∈ behind start (library.rows function inputs),
      ∃ element ∈ provided,
        pair.1 ∈ sparsity.locations.targets row element := by
    intro pair member
    obtain ⟨source, present, rfl⟩ := List.mem_map.mp member
    have inside := among source present
    refine ⟨source.1, inside, ?_⟩
    rw [(consecutive.elements _ inside).targets_eq]
    exact List.mem_singleton_self _
  obtain ⟨after, written, size, holds⟩ :=
    between.holds.writeAll?_eq_some
      (fun pair member => by
        obtain ⟨element, _, recorded⟩ := reached pair member
        rw [between.entryCount]
        exact below.target_lt recorded)
      (nodup_behind distinct)
      (fun pair member => by
        obtain ⟨element, inside, recorded⟩ := reached pair member
        exact unused element inside _ recorded)
  refine ⟨_, performs_rowCall inputCount pointed
    (by rw [between.inputs]) written,
    (between.withResult (size.trans between.entryCount) holds).congr
      fun position => ?_⟩
  rw [Sparsity.rowContributions_eq_behind consecutive,
    landing_behind_perm provides]

/-- In the scratch buffer, the call of a row function stores what is copied
from there to the positions of the row. -/
theorem performs_rowCopied {positions : List IndexSet} {function : String}
    (recorded : sparsity.locations.get? row = some positions)
    (inside : ∀ element ∈ provided, element < positions.length)
    (wide : positions.length ≤ scratchSize)
    (provides : (library.rows function inputs).Perm
      (provided.toList.map fun element => (element, rowValue row element)))
    (below : sparsity.locations.Below entryCount)
    (pointed : memory.pointer = some (.scratch, 0))
    (between : memory.Between inputs entryCount scratchSize contents
      atScratch) :
    ∃ later, Action.performAll? library inputCount memory
        ([.call function none] ++
          (provided.toList.flatMap fun element =>
            (positions[element]?.getD ∅).toList.map fun target =>
              (target, element)).map
            fun (target, source) => .add target source) = some later ∧
      later.Between inputs entryCount scratchSize
        (fun position => contents position + landing position
          (sparsity.rowContributions rowValue row provided))
        atScratch := by
  obtain ⟨distinct, among, present⟩ := provided_of_perm provides
  have fits : ∀ element ∈ provided,
      element < (memory.cells .scratch).size := fun element member => by
    rw [between.scratchSize]
    exact Nat.lt_of_lt_of_le (inside element member) wide
  obtain ⟨after, written, size, values, _⟩ :=
    Cells.writeAll?_eq_some (fun pair member => fits _ (among pair member))
      distinct
  rw [← behind_zero (library.rows function inputs)] at written
  have called := performs_rowCall inputCount pointed
    (by rw [between.inputs]) written
  have middle := between.withScratch (size.trans between.scratchSize)
  have copied : ∀ copy ∈ provided.toList.flatMap (fun element =>
      (positions[element]?.getD ∅).toList.map fun target =>
        (target, element)),
      copy.2 ∈ provided ∧
        copy.1 ∈ sparsity.locations.targets row copy.2 := by
    intro copy member
    obtain ⟨element, listed, target⟩ := List.mem_flatMap.mp member
    obtain ⟨position, among, rfl⟩ := List.mem_map.mp target
    rw [Locations.targets, recorded]
    exact ⟨listed, among⟩
  obtain ⟨later, performed, laterBetween⟩ :=
    performs_copies library inputCount middle (rowValue row)
      (fun copy member => by
        have listed := (copied copy member).1
        rw [Memory.cells_withCells, Cells.read?,
          if_pos (size ▸ fits copy.2 listed)]
        exact values _ (present copy.2 listed))
      (fun copy member => below.target_lt (copied copy member).2)
  refine ⟨later, Action.performAll?_append called performed,
    laterBetween.congr fun position => ?_⟩
  rw [Sparsity.rowContributions_eq_copies recorded]

/-- The invocation of a row adds the row's contributions. -/
theorem OfRow.performs (inputCount : Nat)
    (ofRow : invocation.OfRow options sparsity scratchSize row provided)
    (sums : sparsity.ordered.get? row = some true →
      sparsity.locations.SumsFit row provided)
    (provides : (library.rows (options.rowFunction row) inputs).Perm
      (provided.toList.map fun element => (element, rowValue row element)))
    (below : sparsity.locations.Below entryCount)
    (unused : ∀ element ∈ provided,
      ∀ position ∈ sparsity.locations.targets row element,
        contents position = 0)
    (pointed : invocation.IsPointed atScratch)
    (between : memory.Between inputs entryCount scratchSize contents
      atScratch) :
    ∃ later, Action.performAll? library inputCount memory
        invocation.actions = some later ∧
      later.Between inputs entryCount scratchSize
        (fun position => contents position + landing position
          (sparsity.rowContributions rowValue row provided))
        invocation.place.isNone := by
  rw [actions_of_uncleared ofRow.uncleared, ofRow.named, ofRow.unkeyed]
  rcases ofRow.way with ⟨start, flagged, found, placed, uncopied⟩ |
    ⟨positions, recorded, inside, wide, placed, copied⟩
  · have consecutive := (sums flagged).consecutiveFrom found
    have startBelow : start < entryCount :=
      below.position_lt consecutive.start
    obtain ⟨middle, pointing, target, middleBetween⟩ :=
      performs_pointer_inPlace library inputCount between pointed placed
        startBelow
    obtain ⟨later, called, laterBetween⟩ :=
      performs_rowInPlace consecutive provides below unused target middleBetween
    rw [uncopied, List.map_nil, List.append_nil]
    exact ⟨later, Action.performAll?_append pointing called, laterBetween⟩
  · obtain ⟨middle, pointing, target, middleBetween⟩ :=
      performs_pointer_scratch library inputCount between pointed placed
    obtain ⟨later, called, laterBetween⟩ :=
      performs_rowCopied recorded inside wide provides below target
        middleBetween
    rw [copied, List.append_assoc]
    exact ⟨later, Action.performAll?_append pointing called, laterBetween⟩

/-- In place, the call of a group function adds the key's contributions. -/
theorem performs_keyInPlace {served : GroupKey} {start : Nat}
    {function : String}
    (consecutive : sparsity.locations.ConsecutiveFrom served.key
      served.provided start)
    (provides : (library.keys function served.key inputs).Perm
      (served.provided.toList.map fun element =>
        (element, keyValue served.loop served.group served.key element)))
    (below : sparsity.locations.Below entryCount)
    (pointed : memory.pointer = some (.result, start))
    (between : memory.Between inputs entryCount scratchSize contents
      atScratch) :
    ∃ later, Action.performAll? library inputCount memory
        [.call function (some served.key)] = some later ∧
      later.Between inputs entryCount scratchSize
        (fun position => contents position + landing position
          (sparsity.keyContributions keyValue served))
        atScratch := by
  obtain ⟨_, among, _⟩ := provided_of_perm provides
  have inside : ∀ pair ∈
      behind start (library.keys function served.key inputs),
      pair.1 < (memory.cells .result).size := by
    intro pair member
    obtain ⟨source, present, rfl⟩ := List.mem_map.mp member
    rw [between.entryCount]
    exact below.position_lt
      (consecutive.elements _ (among source present))
  obtain ⟨after, written, size, holds⟩ :=
    between.holds.addAll?_eq_some inside
  refine ⟨_, performs_keyCall inputCount pointed
    (by rw [between.inputs]) written,
    (between.withResult (size.trans between.entryCount) holds).congr
      fun position => ?_⟩
  rw [Sparsity.keyContributions_eq_behind consecutive,
    landing_behind_perm provides]

/-- In the cleared scratch buffer, the call of a group function leaves what the
key provides. -/
theorem performs_clearedCall {served : GroupKey} {function : String}
    (inside : ∀ element ∈ served.provided, element < scratchSize)
    (provides : (library.keys function served.key inputs).Perm
      (served.provided.toList.map fun element =>
        (element, keyValue served.loop served.group served.key element)))
    (pointed : memory.pointer = some (.scratch, 0))
    (between : memory.Between inputs entryCount scratchSize contents
      atScratch) :
    ∃ ready, Action.performAll? library inputCount memory
        ([.clear .scratch scratchSize] ++
          [.call function (some served.key)]) = some ready ∧
      ready.Between inputs entryCount scratchSize contents atScratch ∧
      ∀ element ∈ served.provided, (ready.cells .scratch).read? element =
        some (keyValue served.loop served.group served.key element) := by
  obtain ⟨distinct, among, present⟩ := provided_of_perm provides
  obtain ⟨zeros, cleared, zeroSize, zeroHolds⟩ :=
    Cells.clear?_eq_some (memory.cells .scratch)
  have clearing : Action.performAll? library inputCount memory
      [.clear .scratch scratchSize] =
        some (memory.withCells .scratch zeros) := by
    rw [Action.performAll?_singleton, Action.perform?, ← between.scratchSize]
    simp [cleared]
  have emptied := between.withScratch (zeroSize.trans between.scratchSize)
  have fits : ∀ pair ∈ library.keys function served.key inputs,
      pair.1 < zeros.size := fun pair member => by
    rw [zeroSize, between.scratchSize]
    exact inside _ (among pair member)
  obtain ⟨after, added, size, holds⟩ := zeroHolds.addAll?_eq_some fits
  have called : Action.performAll? library inputCount
      (memory.withCells .scratch zeros) [.call function (some served.key)] =
        some ((memory.withCells .scratch zeros).withCells .scratch
          after) := by
    refine performs_keyCall inputCount pointed
      (by rw [emptied.inputs]) ?_
    rw [Memory.cells_withCells, behind_zero]
    exact added
  refine ⟨_, Action.performAll?_append clearing called,
    emptied.withScratch (size.trans (zeroSize.trans between.scratchSize)),
    fun element member => ?_⟩
  have bound : element < after.size := by
    rw [size, zeroSize, between.scratchSize]
    exact inside element member
  rw [Memory.cells_withCells, holds.read?_eq_some bound, zero_add,
    landing_of_mem distinct (present element member)]

/-- Through the cleared scratch buffer, the call of a group function and the
copies after it add the key's contributions. -/
theorem performs_keyCopied {served : GroupKey} {function : String}
    {copies pairs : List (Nat × Nat)}
    (inside : ∀ element ∈ served.provided, element < scratchSize)
    (related : List.Forall₂ (fun element pair => pair.2 = element ∧
      sparsity.locations.At served.key element pair.1)
      served.provided.toList pairs)
    (permuted : copies.Perm pairs)
    (provides : (library.keys function served.key inputs).Perm
      (served.provided.toList.map fun element =>
        (element, keyValue served.loop served.group served.key element)))
    (below : sparsity.locations.Below entryCount)
    (pointed : memory.pointer = some (.scratch, 0))
    (between : memory.Between inputs entryCount scratchSize contents
      atScratch) :
    ∃ later, Action.performAll? library inputCount memory
        ([.clear .scratch scratchSize] ++
          [.call function (some served.key)] ++
          copies.map fun (target, source) => .add target source) =
            some later ∧
      later.Between inputs entryCount scratchSize
        (fun position => contents position + landing position
          (sparsity.keyContributions keyValue served))
        atScratch := by
  obtain ⟨ready, called, readyBetween, values⟩ :=
    performs_clearedCall inside provides pointed between
  have copied : ∀ copy ∈ copies, copy.2 ∈ served.provided ∧
      sparsity.locations.At served.key copy.2 copy.1 := by
    intro copy member
    obtain ⟨element, listed, rfl, located⟩ :=
      exists_left_of_mem related (permuted.mem_iff.mp member)
    exact ⟨listed, located⟩
  obtain ⟨later, performed, laterBetween⟩ :=
    performs_copies library inputCount readyBetween
      (keyValue served.loop served.group served.key)
      (fun copy member => values _ (copied copy member).1)
      (fun copy member => below.position_lt (copied copy member).2)
  refine ⟨later, Action.performAll?_append called performed,
    laterBetween.congr fun position => ?_⟩
  rw [Sparsity.keyContributions_eq_copies related,
    landing_perm (permuted.map _)]

/-- The invocation of a key adds the key's contributions. -/
theorem OfKey.performs (inputCount : Nat) {served : GroupKey}
    (ofKey : invocation.OfKey options naming sparsity scratchSize served)
    (sums : sparsity.Verifies served.key served.provided →
      sparsity.locations.SumsFit served.key served.provided)
    (provides : (library.keys
        (naming options.modelName served.loop served.group) served.key
        inputs).Perm
      (served.provided.toList.map fun element =>
        (element, keyValue served.loop served.group served.key element)))
    (below : sparsity.locations.Below entryCount)
    (pointed : invocation.IsPointed atScratch)
    (between : memory.Between inputs entryCount scratchSize contents
      atScratch) :
    ∃ later, Action.performAll? library inputCount memory
        invocation.actions = some later ∧
      later.Between inputs entryCount scratchSize
        (fun position => contents position + landing position
          (sparsity.keyContributions keyValue served))
        invocation.place.isNone := by
  rcases ofKey.way with
    ⟨start, verified, found, placed, uncleared, uncopied⟩ |
    ⟨pairs, placed, cleared, inside, related, permuted⟩
  · have consecutive := (sums verified).consecutiveFrom found
    have startBelow : start < entryCount :=
      below.position_lt consecutive.start
    obtain ⟨middle, pointing, target, middleBetween⟩ :=
      performs_pointer_inPlace library inputCount between pointed placed
        startBelow
    obtain ⟨later, called, laterBetween⟩ :=
      performs_keyInPlace consecutive provides below target middleBetween
    rw [actions_of_uncleared uncleared, ofKey.named, ofKey.keyed, uncopied,
      List.map_nil, List.append_nil]
    exact ⟨later, Action.performAll?_append pointing called, laterBetween⟩
  · obtain ⟨middle, pointing, target, middleBetween⟩ :=
      performs_pointer_scratch library inputCount between pointed placed
    obtain ⟨later, called, laterBetween⟩ :=
      performs_keyCopied inside related permuted provides below target
        middleBetween
    refine ⟨later, ?_, laterBetween⟩
    have run := Action.performAll?_append pointing called
    rw [← List.append_assoc, ← List.append_assoc] at run
    rw [actions, cleared, ofKey.named, ofKey.keyed]
    exact run

end Invocation

end Steps

end SparseLoop
