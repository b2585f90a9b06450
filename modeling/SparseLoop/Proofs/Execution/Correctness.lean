import SparseLoop.Proofs.Execution.Steps
import SparseLoop.Proofs.Routine.Calls

/-!
# The result of a usage function

A usage function compiles if its identifiers are distinct, if none of them
hides a function that is called, and if the scratch buffer is declared where a
statement mentions it.  If moreover there is room for the two local inputs that
are always set, a run does not get stuck, and each entry of the result is the
sum of the contributions that land there.  Without one of these there is no
run.

The generation does not look for all of this.  It leaves out the declaration of
the buffer where the widest array that goes through it has no elements, and the
statement that sets the pointer to it remains.
-/

namespace SparseLoop

section Runs

variable {V : Type} [AddCommMonoid V] {library : Library V}
  {options : Options} {naming : GroupNaming} {sparsity : Sparsity}
  {inputs : Nat → Option Input} {rowValue : Nat → Nat → V}
  {keyValue : Nat → Nat → Nat → Nat → V} {entryCount scratchSize : Nat}

/-! ## Rows and keys one after the other -/

namespace Invocation

/-- The invocations of different rows add the rows' contributions. -/
theorem performs_rows (inputCount : Nat) (sums : sparsity.SumsFit)
    (provides : library.Provides options naming sparsity inputs rowValue
      keyValue)
    (below : sparsity.locations.Below entryCount)
    (apart : sparsity.RowsApart) {entries : List (Nat × IndexSet)}
    {invocations : List Invocation}
    (ofRows : List.Forall₂
      (fun (entry : Nat × IndexSet) (invocation : Invocation) =>
        invocation.OfRow options sparsity scratchSize entry.1 entry.2)
      entries invocations)
    (present : ∀ entry ∈ entries, entry ∈ sparsity.rowElements.entries)
    (distinct : (entries.map (·.1)).Nodup) {contents : Nat → V}
    (unused : ∀ entry ∈ entries, ∀ element ∈ entry.2,
      ∀ position ∈ sparsity.locations.targets entry.1 element,
        contents position = 0)
    {atScratch : Bool} (pointed : Pointed atScratch invocations)
    {memory : Memory V}
    (between : memory.Between inputs entryCount scratchSize contents
      atScratch) :
    ∃ later, Action.performAll? library inputCount memory
        (invocations.flatMap actions) = some later ∧
      later.Between inputs entryCount scratchSize
        (fun position => contents position + landing position
          (entries.flatMap fun (row, provided) =>
            sparsity.rowContributions rowValue row provided))
        (endsAtScratch atScratch invocations) := by
  induction ofRows generalizing contents atScratch memory with
  | nil =>
    refine ⟨memory, rfl, between.congr fun position => ?_⟩
    rw [List.flatMap_nil, landing_nil, add_zero]
  | @cons entry invocation entries _ first _ ih =>
    rw [List.map_cons, List.nodup_cons] at distinct
    obtain ⟨fresh, distinct⟩ := distinct
    have stored := present entry List.mem_cons_self
    obtain ⟨middle, one, middleBetween⟩ :=
      first.performs inputCount
        (sums.rows entry.1 entry.2 (IndexMap.get?_eq_some_iff.mpr stored))
        (provides.rows _ stored) below
        (unused entry List.mem_cons_self) pointed.1 between
    have stillUnused : ∀ other ∈ entries, ∀ element ∈ other.2,
        ∀ position ∈ sparsity.locations.targets other.1 element,
          contents position + landing position
            (sparsity.rowContributions rowValue entry.1 entry.2) = 0 := by
      intro other member element inside position recorded
      rw [unused other (List.mem_cons_of_mem _ member) element inside
        position recorded, zero_add]
      exact apart.landing_eq_zero stored
        (present other (List.mem_cons_of_mem _ member))
        (fun alike => fresh (alike ▸ List.mem_map_of_mem member)) inside
        recorded
    obtain ⟨later, rest, laterBetween⟩ :=
      ih (fun other member => present other (List.mem_cons_of_mem _ member))
        distinct stillUnused pointed.2 middleBetween
    refine ⟨later, ?_, laterBetween.congr fun position => ?_⟩
    · rw [List.flatMap_cons]
      exact Action.performAll?_append one rest
    · rw [List.flatMap_cons, landing_append, add_assoc]

/-- The invocations of keys add the keys' contributions. -/
theorem performs_keys (inputCount : Nat) (sums : sparsity.SumsFit)
    (provides : library.Provides options naming sparsity inputs rowValue
      keyValue)
    (below : sparsity.locations.Below entryCount)
    {keys : List GroupKey} {invocations : List Invocation}
    (ofKeys : List.Forall₂ (fun served (invocation : Invocation) =>
      invocation.OfKey options naming sparsity scratchSize served)
      keys invocations)
    (present : ∀ served ∈ keys, served ∈ sparsity.groupKeys)
    {contents : Nat → V} {atScratch : Bool}
    (pointed : Pointed atScratch invocations) {memory : Memory V}
    (between : memory.Between inputs entryCount scratchSize contents
      atScratch) :
    ∃ later, Action.performAll? library inputCount memory
        (invocations.flatMap actions) = some later ∧
      later.Between inputs entryCount scratchSize
        (fun position => contents position + landing position
          (keys.flatMap (sparsity.keyContributions keyValue)))
        (endsAtScratch atScratch invocations) := by
  induction ofKeys generalizing contents atScratch memory with
  | nil =>
    refine ⟨memory, rfl, between.congr fun position => ?_⟩
    rw [List.flatMap_nil, landing_nil, add_zero]
  | @cons served invocation keys _ first _ ih =>
    obtain ⟨middle, one, middleBetween⟩ :=
      first.performs inputCount (sums.keys served.key served.provided)
        (provides.keys served (present served List.mem_cons_self)) below
        pointed.1 between
    obtain ⟨later, rest, laterBetween⟩ :=
      ih (fun other member => present other (List.mem_cons_of_mem _ member))
        pointed.2 middleBetween
    refine ⟨later, ?_, laterBetween.congr fun position => ?_⟩
    · rw [List.flatMap_cons]
      exact Action.performAll?_append one rest
    · rw [List.flatMap_cons, landing_append, add_assoc]

end Invocation

end Runs

/-! ## What the function needs -/

/-- Whether a statement mentions the scratch buffer. -/
def Statement.mentionsScratch : Statement → Bool
  | clearScratch _ | point .scratch | add _ | copyBack _ => true
  | _ => false

/-- The statements of a part. -/
def Part.statements : Part → List Statement
  | once statement => [statement]
  | counted _ body => body

namespace UsageFunction

/-- Whether a statement of the function mentions the scratch buffer. -/
def mentionsScratch (options : Options) (naming : GroupNaming)
    (function : UsageFunction) : Bool :=
  ((function.parts options naming).flatMap Part.statements).any
    Statement.mentionsScratch

/-- The parameters and variables that the function declares. -/
def identifiers (options : Options) (function : UsageFunction) :
    List String :=
  ["in", "out", "atomicFun", "inLocal", "inLocal1", "outLocal",
    options.iterationName, options.keyName, counterName] ++
    (if 0 < function.scratchSize then ["compressed"] else []) ++
    function.keyTables.map (fun table =>
      options.spell (.keyTable table.loop table.group)) ++
    [options.resultName]

/-- The identifiers are distinct and hide no function that is called, and the
scratch buffer is declared if it is mentioned. -/
def Compiles (options : Options) (naming : GroupNaming)
    (function : UsageFunction) : Prop :=
  (function.identifiers options).Nodup ∧
    (∀ name ∈ function.calledFunctions options naming,
      name ∉ function.identifiers options) ∧
    (function.mentionsScratch options naming = true →
      0 < function.scratchSize)

instance (options : Options) (naming : GroupNaming)
    (function : UsageFunction) :
    Decidable (function.Compiles options naming) :=
  inferInstanceAs (Decidable (_ ∧ _ ∧ _))

variable {V : Type} [AddCommMonoid V]

/-- The memory at the start of a run, given what is in the result array. -/
def startMemory (function : UsageFunction) (before : Nat → Option V) :
    Memory V where
  cells
    | .result => ⟨function.entryCount, before⟩
    | .scratch => ⟨function.scratchSize, fun _ => none⟩
  pointer := none
  inputs _ := none

/-- The memory after a run of the function. -/
def execute? (library : Library V) (before : Nat → Option V)
    (options : Options) (naming : GroupNaming)
    (function : UsageFunction) : Option (Memory V) :=
  if function.Compiles options naming then do
    let actions ← function.actions? options naming
    Action.performAll? library options.inputCount
      (function.startMemory before) actions
  else
    none

/-! ## The preparation -/

/-- What a local input points to once it is set. -/
def preparedInput : Nat → Input
  | 0 => .argument 0
  | 1 => .unit
  | slot + 2 => .argument (slot + 1)

/-- The local inputs once the first of them are set. -/
def preparedInputs (count slot : Nat) : Option Input :=
  if slot < count then some (preparedInput slot) else none

theorem preparationActions_eq {options : Options}
    (room : 2 ≤ options.inputCount) (function : UsageFunction) :
    function.preparationActions options =
      (List.range options.inputCount).map
        (fun slot => .setInput slot (preparedInput slot)) ++
        [.clear .result function.entryCount] := by
  obtain ⟨others, equal⟩ := Nat.exists_eq_add_of_le' room
  rw [preparationActions, equal, Nat.add_sub_cancel,
    List.range_succ_eq_map, List.range_succ_eq_map]
  simp [preparedInput, List.map_map, Function.comp_def]

theorem performs_setInputs (library : Library V) (inputCount : Nat)
    (memory : Memory V) (unset : memory.inputs = fun _ => none)
    {count : Nat} (inside : count ≤ inputCount) :
    Action.performAll? library inputCount memory
        ((List.range count).map fun slot =>
          .setInput slot (preparedInput slot)) =
      some { memory with inputs := preparedInputs count } := by
  induction count with
  | zero =>
    have none : preparedInputs 0 = memory.inputs := by
      rw [unset]
      rfl
    rw [none]
    rfl
  | succ count ih =>
    have next : preparedInputs (count + 1) =
        Function.update (preparedInputs count) count
          (some (preparedInput count)) := by
      funext slot
      by_cases same : slot = count
      · rw [same, Function.update_self, preparedInputs,
          if_pos (Nat.lt_succ_self count)]
      · rw [Function.update_of_ne same, preparedInputs, preparedInputs]
        congr 1
        simp only [eq_iff_iff]
        omega
    rw [List.range_succ, List.map_append, next]
    refine Action.performAll?_append (ih (Nat.le_of_succ_le inside)) ?_
    rw [List.map_singleton, Action.performAll?_singleton,
      Action.perform?, if_pos (Nat.lt_of_succ_le inside)]

/-- The preparation needs room for two local inputs, and leaves the result
without contributions. -/
theorem performs_preparation (library : Library V) {options : Options}
    (room : 2 ≤ options.inputCount) (before : Nat → Option V)
    (function : UsageFunction) :
    ∃ memory : Memory V,
      Action.performAll? library options.inputCount
        (function.startMemory before)
        (function.preparationActions options) = some memory ∧
      memory.Between (preparedInputs options.inputCount)
        function.entryCount function.scratchSize (fun _ => 0) false := by
  obtain ⟨cells, cleared, size, holds⟩ :=
    Cells.clear?_eq_some ⟨function.entryCount, before⟩
  let set : Memory V := { function.startMemory before with
    inputs := preparedInputs options.inputCount }
  have inputs := performs_setInputs library options.inputCount
    (function.startMemory before) rfl (Nat.le_refl _)
  have clearing : Action.performAll? library options.inputCount set
      [.clear .result function.entryCount] =
        some (set.withCells .result cells) := by
    rw [Action.performAll?_singleton, Action.perform?]
    exact congrArg (· >>= _) cleared
  refine ⟨set.withCells .result cells, ?_, rfl, ?_, rfl, ?_, ?_⟩
  · rw [preparationActions_eq room]
    exact Action.performAll?_append inputs clearing
  · rw [Memory.cells_withCells, size]
  · rw [Memory.cells_withCells]
    exact holds
  · intro known
    cases known

/-- A function that runs has room for two local inputs. -/
theorem two_le_inputCount {library : Library V} {options : Options}
    {function : UsageFunction} {memory : Memory V}
    {others : List Action} {after : Memory V}
    (performed : Action.performAll? library options.inputCount memory
      (function.preparationActions options ++ others) = some after) :
    2 ≤ options.inputCount := by
  rw [preparationActions, List.append_assoc, List.append_assoc,
    Action.performAll?, List.cons_append, List.foldlM_cons,
    Option.bind_eq_bind, Option.bind_eq_some_iff] at performed
  obtain ⟨middle, _, rest⟩ := performed
  rw [List.cons_append, List.foldlM_cons, Option.bind_eq_bind,
    Option.bind_eq_some_iff] at rest
  obtain ⟨_, second, _⟩ := rest
  rw [Action.perform?, Option.ite_none_right_eq_some] at second
  exact second.1

variable {sparsity : Sparsity} {detector : Detector} {plan : CallPlan}
  {function : UsageFunction}

/-- A function that compiles and has room for its inputs leaves the sum of all
contributions. -/
theorem execute_of_compiles (options : Options) (naming : GroupNaming)
    (library : Library V) (before : Nat → Option V)
    {rowValue : Nat → Nat → V} {keyValue : Nat → Nat → Nat → Nat → V}
    (reproduces : detector.Reproduces) (fits : sparsity.FitsWords)
    (sums : sparsity.SumsFit)
    (below : sparsity.locations.Below sparsity.entryCount)
    (apart : sparsity.RowsApart)
    (provides : library.Provides options naming sparsity
      (preparedInputs options.inputCount) rowValue keyValue)
    (planned : sparsity.callPlan detector = .ok plan)
    (made : make sparsity plan = .ok function)
    (compiles : function.Compiles options naming)
    (room : 2 ≤ options.inputCount) :
    ∃ final, function.execute? library before options naming =
        some final ∧
      ∀ position < sparsity.entryCount,
        (final.cells .result).value position =
          some (landing position (sparsity.allRowContributions rowValue) +
            landing position
              (sparsity.allKeyContributions keyValue)) := by
  obtain ⟨rows, keys, served, runs, ofRows, permuted, ofKeys, pointed⟩ :=
    make_runs options naming reproduces fits planned made
  obtain ⟨rowsPointed, keysPointed⟩ := Invocation.pointed_append.mp pointed
  have counted := (make_eq_ok made).1
  rw [← counted] at below
  obtain ⟨prepared, preparing, preparedBetween⟩ :=
    performs_preparation library room before function
  obtain ⟨middle, rowsPerformed, middleBetween⟩ :=
    Invocation.performs_rows options.inputCount sums provides below apart ofRows
      (fun _ member => member)
      sparsity.rowElements.nodup_keyList (fun _ _ _ _ _ _ => rfl)
      rowsPointed preparedBetween
  obtain ⟨final, keysPerformed, finalBetween⟩ :=
    Invocation.performs_keys options.inputCount sums provides below ofKeys
      (fun _ member => permuted.mem_iff.mp member) keysPointed
      middleBetween
  refine ⟨final, ?_, fun position bound => ?_⟩
  · rw [execute?, if_pos compiles, runs, List.flatMap_append]
    exact Action.performAll?_append preparing
      (Action.performAll?_append rowsPerformed keysPerformed)
  · rw [← counted, ← finalBetween.entryCount] at bound
    rw [finalBetween.holds position bound]
    dsimp only
    rw [zero_add, landing_perm (permuted.flatMap_right _)]
    rfl

/-- A generated usage function runs exactly if it compiles and has room for
two inputs, and then it leaves the sum of all contributions. -/
theorem generated_leaves_contributions {text : String}
    (options : Options) (naming : GroupNaming)
    (library : Library V) (before : Nat → Option V)
    (rowValue : Nat → Nat → V) (keyValue : Nat → Nat → Nat → Nat → V)
    (reproduces : detector.Reproduces) (fits : sparsity.FitsWords)
    (sums : sparsity.SumsFit)
    (below : sparsity.locations.Below sparsity.entryCount)
    (apart : sparsity.RowsApart)
    (provides : library.Provides options naming sparsity
      (preparedInputs options.inputCount) rowValue keyValue)
    (planned : sparsity.callPlan detector = .ok plan)
    (generated : generate options sparsity plan naming = .ok text) :
    ∃ function : UsageFunction, make sparsity plan = .ok function ∧
      text = function.text options naming ∧
      function.text options naming =
        textOfLines (function.lines options naming) ∧
      ((∃ final, function.execute? library before options naming =
          some final) ↔
        function.Compiles options naming ∧ 2 ≤ options.inputCount) ∧
      ∀ final, function.execute? library before options naming =
          some final →
        ∀ position < sparsity.entryCount,
          (final.cells .result).value position =
            some (landing position
                (sparsity.allRowContributions rowValue) +
              landing position
                (sparsity.allKeyContributions keyValue)) := by
  obtain ⟨function, made, written⟩ := generate_eq_ok generated
  have needed : ∀ final,
      function.execute? library before options naming = some final →
        function.Compiles options naming ∧ 2 ≤ options.inputCount := by
    intro final ran
    obtain ⟨rows, keys, served, runs, _⟩ :=
      make_runs options naming reproduces fits planned made
    rw [execute?, runs] at ran
    split at ran
    · next compiles => exact ⟨compiles, two_le_inputCount ran⟩
    · cases ran
  have enough := execute_of_compiles options naming library before
    reproduces fits sums below apart provides planned made
  refine ⟨function, made, written, text_eq options naming function,
    ⟨fun ⟨final, ran⟩ => needed final ran, ?_⟩, ?_⟩
  · rintro ⟨compiles, room⟩
    obtain ⟨final, ran, _⟩ := enough compiles room
    exact ⟨final, ran⟩
  · intro final ran
    obtain ⟨compiles, room⟩ := needed final ran
    obtain ⟨other, again, sums⟩ := enough compiles room
    rw [ran] at again
    cases again
    exact sums

/-- A description with all ways to the result: a row and a group that write in
place, and a row and a group that write through the scratch buffer. -/
def mixed : Sparsity where
  loopGroups := IndexMap.ofList
    [ (0, IndexMap.ofList
        [(1, IndexMap.ofList
          [(0, IndexSet.ofList [0]), (2, IndexSet.ofList [0])])]),
      (1, IndexMap.ofList
        [(0, IndexMap.ofList [(5, IndexSet.ofList [0])])]) ]
  rowElements := IndexMap.ofList
    [(2, IndexSet.ofList [1]), (5, IndexSet.ofList [0, 1])]
  locations := IndexMap.ofList
    [ (0, [IndexSet.ofList [0]]),
      (2, [IndexSet.ofList [2], IndexSet.ofList [1, 3]]),
      (5, [IndexSet.ofList [4], IndexSet.ofList [5]]) ]
  ordered := IndexMap.ofList [(0, true), (2, false), (5, true)]
  entryCount := 6

/-- Functions for the mixed description, with values that differ. -/
def mixedLibrary : Library Int where
  rows function _ :=
    if function = Options.rowFunction {} 2 then [(1, 21)]
    else [(0, 50), (1, 51)]
  keys _ key _ := [(0, 100 + key)]

theorem mixedLibrary_provides :
    mixedLibrary.Provides {} GroupNaming.short mixed (preparedInputs 3)
      (fun row element => 10 * row + element)
      (fun _ _ key _ => 100 + key) where
  rows := by decide
  keys := by decide

/-- The function of the mixed description runs, and each way to the result is
taken. -/
theorem mixed_leaves_contributions :
    Detector.affine.Reproduces ∧ mixed.FitsWords ∧ mixed.SumsFit ∧
    mixed.RowsApart ∧
    ∃ plan text function final,
      mixed.callPlan Detector.affine = .ok plan ∧
      generate {} mixed plan GroupNaming.short = .ok text ∧
      text = UsageFunction.text {} GroupNaming.short function ∧
      function.execute? mixedLibrary (fun _ => none) {} GroupNaming.short =
        some final ∧
      (List.range mixed.entryCount).map (final.cells .result).value =
        [some 100, some 21, some 102, some 21, some 155, some 51] := by
  have fits : mixed.FitsWords :=
    ⟨by decide, Locations.within_of_entries (by decide), by decide⟩
  have sumsFit : mixed.SumsFit :=
    .of_within (Locations.within_of_entries (by decide)) (by decide)
      (by decide)
  have apart : mixed.RowsApart := by decide
  have checked : (do
      let plan ← mixed.callPlan Detector.affine
      let function ← make mixed plan
      let _ ← generate {} mixed plan GroupNaming.short
      pure (decide (function.Compiles {} GroupNaming.short))) =
      (.ok true : Except Failure Bool) :=
    rfl
  obtain ⟨plan, function, text, planned, made, written, facts⟩ :=
    exists_of_checked checked
  have compiles := of_decide_eq_true facts
  obtain ⟨same, again, equal, _, runs, sums⟩ :=
    generated_leaves_contributions {} GroupNaming.short mixedLibrary
      (fun _ => none) _ _ Detector.affine_reproduces fits sumsFit
      (by decide) apart mixedLibrary_provides planned written
  rw [made] at again
  cases again
  obtain ⟨final, ran⟩ := runs.mpr ⟨compiles, by decide⟩
  refine ⟨Detector.affine_reproduces, fits, sumsFit, apart, plan, text,
    function, final, planned, written, equal, ran, ?_⟩
  rw [List.map_congr_left fun position member =>
    sums final ran position (List.mem_range.mp member)]
  rfl

/-- A row without elements that is not ordered, beside a row that has one. -/
def emptyRow : Sparsity where
  rowElements := IndexMap.ofList [(0, ∅), (1, IndexSet.ofList [0])]
  locations := IndexMap.ofList [(0, []), (1, [IndexSet.ofList [0]])]
  ordered := IndexMap.ofList [(0, false), (1, true)]
  entryCount := 1

/-- The scratch buffer for a row without elements is mentioned and not
declared, so the generated function does not run. -/
theorem emptyRow_does_not_run :
    emptyRow.FitsWords ∧ emptyRow.SumsFit ∧
    emptyRow.locations.Below emptyRow.entryCount ∧ emptyRow.RowsApart ∧
    ∃ plan text function,
      emptyRow.callPlan Detector.affine = .ok plan ∧
      generate {} emptyRow plan (Options.groupNaming {}) = .ok text ∧
      make emptyRow plan = .ok function ∧
      text = UsageFunction.text {} (Options.groupNaming {}) function ∧
      ∀ (library : Library Int) (before : Nat → Option Int),
        function.execute? library before {} (Options.groupNaming {}) = none := by
  have checked : (do
      let plan ← emptyRow.callPlan Detector.affine
      let function ← make emptyRow plan
      let _ ← generate {} emptyRow plan (Options.groupNaming {})
      pure (decide (¬ function.Compiles {} (Options.groupNaming {})))) =
      (.ok true : Except Failure Bool) :=
    rfl
  obtain ⟨plan, function, text, planned, made, written, facts⟩ :=
    exists_of_checked checked
  have broken := of_decide_eq_true facts
  obtain ⟨same, again, equal⟩ := generate_eq_ok written
  rw [made] at again
  cases again
  refine ⟨⟨by decide, Locations.within_of_entries (by decide), by decide⟩,
    .of_within (Locations.within_of_entries (by decide)) (by decide)
      (by decide),
    by decide, by decide, plan, text, function, planned, written, made,
    equal, fun library before => ?_⟩
  rw [execute?, if_neg broken]

end UsageFunction

end SparseLoop
