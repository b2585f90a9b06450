import SparseLoop.Proofs.Routine.Trace

/-!
# The run of a usage function

A usage function that is made from the plan of a description does not get
stuck.  Its actions are those of the preparation and then of the invocations:
one for each row with a function, in order, and one for each key of each group,
in the order of the plan.

All numbers of the description have to be words of the machine.
-/

namespace SparseLoop

open Traversal

/-- The numbers of a description are words of the machine. -/
structure Sparsity.FitsWords (sparsity : Sparsity) : Prop where
  rows : ∀ row ∈ sparsity.elements.keyList, row < 2 ^ 64
  locations : sparsity.locations.Within (2 ^ 64)
  keys : ∀ group ∈ sparsity.groups,
    ∀ key ∈ group.elements.keyList, key < 2 ^ 64

/-! ## The scratch buffer -/

theorem le_foldl_max {widths : List Nat} {least width : Nat}
    (bound : width ≤ least ∨ width ∈ widths) :
    width ≤ widths.foldl max least := by
  induction widths generalizing least with
  | nil => exact bound.resolve_right List.not_mem_nil
  | cons first rest ih =>
    apply ih
    rcases bound with below | member
    · exact .inl (Nat.le_trans below (Nat.le_max_left least first))
    · rcases List.mem_cons.mp member with rfl | later
      · exact .inl (Nat.le_max_right least width)
      · exact .inr later

namespace CallPlan

variable {plan : CallPlan} {sparsity : Sparsity} {key size : Nat}

/-- The size of the scratch buffer is the largest of some widths: those of the
rows, where an ordered row counts for nothing, and those of the keys of the
groups that do not write in place. -/
theorem scratchSize_eq_ok (sized : plan.scratchSize sparsity = .ok size) :
    ∃ widths : List Nat, widths.foldl max 0 = size ∧
      ∀ found, found ∈ widths ↔
        (∃ row ∈ sparsity.rowElements.keyList,
          sparsity.isOrdered row = .ok true ∧ 0 = found ∨
            sparsity.isOrdered row = .ok false ∧
              width sparsity row = .ok found) ∨
        ∃ count loop group access, (count, loop, group, access) ∈ plan.calls ∧
          access.start = none ∧
            ∃ key ∈ access.keys, width sparsity key = .ok found := by
  rw [scratchSize, bind_eq_ok_iff] at sized
  obtain ⟨rowWidths, rowsMeasured, sized⟩ := sized
  rw [bind_eq_ok_iff] at sized
  obtain ⟨keyWidths, keysMeasured, equal⟩ := sized
  refine ⟨rowWidths ++ keyWidths.flatten, Except.ok.inj equal,
    fun found => ?_⟩
  rw [List.mem_append, mem_of_mapM_eq_ok rowsMeasured, List.mem_flatten]
  refine or_congr (exists_congr fun row => and_congr_right fun _ => ?_) ?_
  · rw [bind_eq_ok_iff]
    constructor
    · rintro ⟨_ | _, flagged, measured⟩
      · exact .inr ⟨flagged, measured⟩
      · exact .inl ⟨flagged, Except.ok.inj measured⟩
    · rintro (⟨flagged, rfl⟩ | ⟨flagged, measured⟩)
      · exact ⟨true, flagged, rfl⟩
      · exact ⟨false, flagged, measured⟩
  · constructor
    · rintro ⟨widths, among, member⟩
      obtain ⟨⟨count, loop, group, access⟩, buffered, each⟩ :=
        (mem_of_mapM_eq_ok keysMeasured).mp among
      obtain ⟨planned, unplaced⟩ := List.mem_filter.mp buffered
      exact ⟨count, loop, group, access, planned,
        Option.isNone_iff_eq_none.mp unplaced,
        (mem_of_mapM_eq_ok each).mp member⟩
    · rintro ⟨count, loop, group, access, planned, unplaced, measured⟩
      have buffered : (count, loop, group, access) ∈
          plan.calls.filter fun call => call.2.2.2.start.isNone :=
        List.mem_filter.mpr ⟨planned, by simp [unplaced]⟩
      obtain ⟨widths, among, each⟩ :=
        exists_right_of_mem (mapM_eq_ok_iff.mp keysMeasured) buffered
      exact ⟨widths, among, (mem_of_mapM_eq_ok each).mpr measured⟩

theorem width_eq_ok {positions : List IndexSet}
    (recorded : sparsity.locations.get? key = some positions) :
    width sparsity key = .ok positions.length :=
  map_eq_ok_iff.mpr ⟨positions, Locations.find_eq_ok_iff.mpr recorded, rfl⟩

/-- The scratch buffer has room for every unordered row and for every key of a
group that does not write in place. -/
theorem widthWithin_scratchSize
    (sized : plan.scratchSize sparsity = .ok size) :
    (∀ row ∈ sparsity.rowElements.keyList,
      sparsity.isOrdered row = .ok false →
        sparsity.locations.WidthWithin row size) ∧
    ∀ count loop group access, (count, loop, group, access) ∈ plan.calls →
      access.start = none → ∀ key ∈ access.keys,
        sparsity.locations.WidthWithin key size := by
  obtain ⟨widths, rfl, among⟩ := scratchSize_eq_ok sized
  constructor
  · intro row member unordered positions recorded
    exact le_foldl_max (.inr ((among _).mpr (.inl
      ⟨row, member, .inr ⟨unordered, width_eq_ok recorded⟩⟩)))
  · intro count loop group access member unplaced key listed positions
      recorded
    exact le_foldl_max (.inr ((among _).mpr (.inr
      ⟨count, loop, group, access, member, unplaced, key, listed,
        width_eq_ok recorded⟩)))

end CallPlan

/-! ## The tables of keys -/

namespace CallPlan

variable {plan : CallPlan} {count loop group : Nat} {access : GroupAccess}

theorem mem_keyTables {table : KeyTable} :
    table ∈ plan.keyTables ↔
      ∃ count loop group access, (count, loop, group, access) ∈ plan.calls ∧
        1 < count ∧ access.keyPattern = none ∧
        table = ⟨loop, group, count, access.keys⟩ := by
  rw [keyTables, List.mem_filterMap]
  constructor
  · rintro ⟨⟨count, loop, group, access⟩, member, found⟩
    simp only [Option.ite_none_right_eq_some, Bool.and_eq_true,
      decide_eq_true_eq, Option.isNone_iff_eq_none, Option.some.injEq]
      at found
    exact ⟨count, loop, group, access, member, found.1.1, found.1.2,
      found.2.symm⟩
  · rintro ⟨count, loop, group, access, member, several, patternless, rfl⟩
    refine ⟨_, member, ?_⟩
    simp [several, patternless]

/-- A group that repeats and has no key pattern finds its keys in the
tables. -/
theorem entries?_keyTables
    (distinct : (plan.calls.map fun (_, loop, group, _) =>
      (loop, group)).Nodup)
    (member : (count, loop, group, access) ∈ plan.calls)
    (counted : access.keys.length = count) (several : 1 < count)
    (patternless : access.keyPattern = none) :
    KeyTable.entries? plan.keyTables loop group = some access.keys := by
  have listed : (⟨loop, group, count, access.keys⟩ : KeyTable) ∈
      plan.keyTables :=
    mem_keyTables.mpr
      ⟨count, loop, group, access, member, several, patternless, rfl⟩
  obtain ⟨table, found⟩ : ∃ table, plan.keyTables.find?
      (fun table => table.loop == loop && table.group == group) =
        some table := by
    rw [← Option.isSome_iff_exists, List.find?_isSome]
    exact ⟨_, listed, by simp⟩
  have matched := List.find?_some found
  obtain ⟨otherCount, otherLoop, otherGroup, other, among, _, _, rfl⟩ :=
    mem_keyTables.mp (List.mem_of_find?_eq_some found)
  simp only [Bool.and_eq_true, beq_iff_eq] at matched
  obtain ⟨rfl, rfl⟩ := matched
  have same := List.inj_on_of_nodup_map distinct among member rfl
  cases same
  rw [KeyTable.entries?, found]
  simp [counted]

end CallPlan

namespace Sparsity

variable {sparsity : Sparsity} {detector : Detector} {plan : CallPlan}

theorem calls_distinct (planned : sparsity.callPlan detector = .ok plan) :
    (plan.calls.map fun (_, loop, group, _) => (loop, group)).Nodup :=
  (calls_perm_groups planned).nodup_iff.mpr sparsity.groups_distinct

/-- Each call of a plan is planned for a group of the description. -/
theorem exists_planned (reproduces : detector.Reproduces)
    (fits : sparsity.FitsWords)
    (planned : sparsity.callPlan detector = .ok plan) {scratchSize : Nat}
    (sized : plan.scratchSize sparsity = .ok scratchSize)
    {count : Nat} {entry : Nat × Nat × GroupAccess}
    (member : (count, entry) ∈ plan.calls) :
    ∃ source : LoopGroup,
      source.Planned sparsity plan.keyTables scratchSize count entry := by
  obtain ⟨loop, group, access⟩ := entry
  obtain ⟨source, present, rfl, rfl, made, counted⟩ :=
    (mem_calls_callPlan planned).mp member
  have serves := LoopGroup.access_serves reproduces made
  refine ⟨source, present, rfl, rfl, serves,
    fun _ => LoopGroup.allFlagged_of_access made, counted, ?_,
    (CallPlan.widthWithin_scratchSize sized).2 _ _ _ _ member, ?_⟩
  · rw [serves.keys]
    exact fits.keys source present
  · exact CallPlan.entries?_keyTables (calls_distinct planned) member counted

/-- The accesses of a round of a plan are those of groups. -/
theorem rounds_planned (reproduces : detector.Reproduces)
    (fits : sparsity.FitsWords)
    (planned : sparsity.callPlan detector = .ok plan) {scratchSize : Nat}
    (sized : plan.scratchSize sparsity = .ok scratchSize) :
    ∀ round ∈ plan.entries, ∃ sources : List LoopGroup,
      List.Forall₂ (fun (source : LoopGroup) entry =>
        source.Planned sparsity plan.keyTables scratchSize round.1 entry)
        sources (Round.accesses round.2) := by
  intro round member
  have chosen : ∀ entry ∈ Round.accesses round.2, ∃ source : LoopGroup,
      source.Planned sparsity plan.keyTables scratchSize round.1
        entry := by
    intro entry among
    refine exists_planned reproduces fits planned sized ?_
    rw [Round.calls_eq]
    exact List.mem_flatMap.mpr
      ⟨round, member, List.mem_map_of_mem among⟩
  obtain ⟨sources, related⟩ := exists_forall₂ chosen
  exact ⟨sources, related.flip⟩

/-- The groups for which the calls of a plan are planned are those of the
description. -/
theorem perm_groups_of_planned
    (planned : sparsity.callPlan detector = .ok plan)
    {tables : List KeyTable} {scratchSize : Nat}
    {sources : List LoopGroup}
    (related : List.Forall₂ (fun (source : LoopGroup) call =>
      source.Planned sparsity tables scratchSize call.1 call.2)
      sources plan.calls) :
    sources.Perm sparsity.groups := by
  have places : sources.map (fun source => (source.loop, source.group)) =
      plan.calls.map fun (_, loop, group, _) => (loop, group) := by
    rw [← List.forall₂_eq_eq_eq, List.forall₂_map_left_iff,
      List.forall₂_map_right_iff]
    refine related.imp fun source call shown => ?_
    exact Prod.ext shown.atLoop.symm shown.atGroup.symm
  have permuted := calls_perm_groups planned
  rw [← places] at permuted
  refine (List.perm_ext_iff_of_nodup
    (List.Nodup.of_map _ (permuted.nodup_iff.mpr sparsity.groups_distinct))
    (List.Nodup.of_map _ sparsity.groups_distinct)).mpr fun group => ?_
  constructor
  · intro member
    obtain ⟨_, _, shown⟩ := exists_right_of_mem related member
    exact shown.member
  · intro member
    obtain ⟨source, present, same⟩ := List.mem_map.mp
      (permuted.mem_iff.mpr (List.mem_map_of_mem member))
    obtain ⟨_, _, shown⟩ := exists_right_of_mem related present
    exact List.inj_on_of_nodup_map sparsity.groups_distinct shown.member
      member same ▸ present

end Sparsity

/-! ## The whole function -/

namespace UsageFunction

variable {sparsity : Sparsity} {detector : Detector} {plan : CallPlan}
  {function : UsageFunction}

/-- The actions before the first invocation. -/
def preparationActions (options : Options) (function : UsageFunction) :
    List Action :=
  [.setInput 0 (.argument 0), .setInput 1 .unit] ++
    (List.range (options.inputCount - 2)).map
      (fun offset => .setInput (offset + 2) (.argument (offset + 1))) ++
    [.clear .result function.entryCount]

theorem runs_preparation (options : Options) (tables : List KeyTable)
    (words : Words) (function : UsageFunction) :
    Runs (Statement.control? tables) words (function.preparation options)
      words (function.preparationActions options) := by
  have inputs : ∀ offsets : List Nat,
      Runs (Statement.control? tables) words
        (offsets.map fun offset => .takeInput (offset + 2) (offset + 1))
        words
        (offsets.map fun offset =>
          .setInput (offset + 2) (.argument (offset + 1))) := by
    intro offsets
    induction offsets with
    | nil => exact Runs.nil words
    | cons offset rest ih =>
      have one : Statement.control? tables words
          (.takeInput (offset + 2) (offset + 1)) =
            some (words,
              [.setInput (offset + 2) (.argument (offset + 1))]) :=
        rfl
      exact Runs.cons one ih
  have constants : Runs (Statement.control? tables) words
      [.takeInput 0 0, .takeUnit] words
      [.setInput 0 (.argument 0), .setInput 1 .unit] :=
    rfl
  have clearing : Runs (Statement.control? tables) words
      [.blank, .clearResult function.entryCount, .blank] words
      [.clear .result function.entryCount] :=
    rfl
  exact (constants.append (inputs _)).append clearing

/-- The parts of a made function. -/
theorem make_eq_ok (made : make sparsity plan = .ok function) :
    function.entryCount = sparsity.entryCount ∧
      plan.scratchSize sparsity = .ok function.scratchSize ∧
      function.keyTables = plan.keyTables ∧
      RowCall.makeAll sparsity false sparsity.rowElements.entries =
        .ok function.rowCalls ∧
      Round.makeAll (RowCall.endsAtScratch false function.rowCalls)
        plan.entries = .ok function.rounds := by
  rw [make, bind_eq_ok_iff] at made
  obtain ⟨scratchSize, sized, made⟩ := made
  rw [bind_eq_ok_iff] at made
  obtain ⟨rowCalls, rowsMade, made⟩ := made
  rw [bind_eq_ok_iff] at made
  obtain ⟨rounds, roundsMade, equal⟩ := made
  cases equal
  exact ⟨rfl, sized, rfl, rowsMade, roundsMade⟩

/-- A text that is generated is that of the made function. -/
theorem generate_eq_ok {options : Options} {naming : GroupNaming}
    {text : String}
    (generated : generate options sparsity plan naming = .ok text) :
    ∃ function, make sparsity plan = .ok function ∧
      text = function.text options naming := by
  rw [generate, bind_eq_ok_iff] at generated
  obtain ⟨_, _, generated⟩ := generated
  rw [bind_eq_ok_iff] at generated
  obtain ⟨function, made, equal⟩ := generated
  cases equal
  exact ⟨function, made, rfl⟩

/-- A check of the plan, the function and the text that comes out true has all
three of them. -/
theorem exists_of_checked {options : Options} {naming : GroupNaming}
    {check : CallPlan → UsageFunction → String → Bool}
    (checked : (do
      let plan ← sparsity.callPlan detector
      let function ← make sparsity plan
      let text ← generate options sparsity plan naming
      pure (check plan function text)) = (.ok true : Except Failure Bool)) :
    ∃ plan function text, sparsity.callPlan detector = .ok plan ∧
      make sparsity plan = .ok function ∧
      generate options sparsity plan naming = .ok text ∧
      check plan function text = true := by
  simp only [bind_eq_ok_iff] at checked
  obtain ⟨plan, planned, function, made, text, written, equal⟩ := checked
  exact ⟨plan, function, text, planned, made, written,
    Except.ok.inj equal⟩

theorem runs_rowStatements (options : Options) (tables : List KeyTable)
    (words : Words) {scratchSize : Nat}
    (within : sparsity.locations.Within (2 ^ 64))
    (wide : ∀ entry ∈ sparsity.rowElements.entries,
      sparsity.isOrdered entry.1 = .ok false →
        sparsity.locations.WidthWithin entry.1 scratchSize)
    (made : RowCall.makeAll sparsity false sparsity.rowElements.entries =
      .ok function.rowCalls) :
    ∃ invocations : List Invocation,
      Runs (Statement.control? tables) words (function.rowStatements options)
        words (invocations.flatMap Invocation.actions) ∧
      List.Forall₂ (fun (entry : Nat × IndexSet) (invocation : Invocation) =>
        invocation.OfRow options sparsity scratchSize entry.1 entry.2)
        sparsity.rowElements.entries invocations ∧
      Invocation.Pointed false invocations ∧
      RowCall.endsAtScratch false function.rowCalls =
        Invocation.endsAtScratch false invocations := by
  obtain ⟨invocations, runs, ofRows, pointed, ends⟩ :=
    RowCall.makeAll_runs options tables words within wide made
  refine ⟨invocations, ?_, ofRows, pointed, ends⟩
  rw [rowStatements]
  split
  · next none =>
    rw [List.isEmpty_iff.mp none] at runs
    exact runs
  · have blank : Runs (Statement.control? tables) words [.blank] words [] :=
      Runs.single rfl
    have run := runs.append blank
    rw [List.append_nil] at run
    exact run

/-- A made usage function runs as one invocation for each row with a function
and for each key of each group. -/
theorem make_runs (options : Options) (naming : GroupNaming)
    (reproduces : detector.Reproduces) (fits : sparsity.FitsWords)
    (planned : sparsity.callPlan detector = .ok plan)
    (made : make sparsity plan = .ok function) :
    ∃ (rows keys : List Invocation) (served : List GroupKey),
      function.actions? options naming =
        some (function.preparationActions options ++
          (rows ++ keys).flatMap Invocation.actions) ∧
      List.Forall₂ (fun (entry : Nat × IndexSet) (invocation : Invocation) =>
        invocation.OfRow options sparsity function.scratchSize entry.1
          entry.2)
        sparsity.rowElements.entries rows ∧
      served.Perm sparsity.groupKeys ∧
      List.Forall₂ (fun served (invocation : Invocation) =>
        invocation.OfKey options naming sparsity function.scratchSize served)
        served keys ∧
      Invocation.Pointed false (rows ++ keys) := by
  obtain ⟨_, sized, tabled, rowsMade, roundsMade⟩ := make_eq_ok made
  have rowsWide : ∀ entry ∈ sparsity.rowElements.entries,
      sparsity.isOrdered entry.1 = .ok false →
        sparsity.locations.WidthWithin entry.1 function.scratchSize :=
    fun entry member => (CallPlan.widthWithin_scratchSize sized).1 entry.1
      (List.mem_map_of_mem member)
  obtain ⟨rows, rowsRun, ofRows, rowsPointed, ends⟩ :=
    runs_rowStatements options function.keyTables ⟨none, none⟩
      fits.locations rowsWide rowsMade
  rw [ends] at roundsMade
  have roundsPlanned :=
    Sparsity.rounds_planned reproduces fits planned sized
  rw [← tabled] at roundsPlanned
  obtain ⟨sources, served, keys, later, related, permuted, keysRun, ofKeys,
    keysPointed⟩ :=
    Round.makeAll_runs options naming function.scratchSize ⟨none, none⟩
      fits.locations roundsPlanned roundsMade id
  rw [← Round.calls_eq] at related
  refine ⟨rows, keys, served, ?_, ofRows,
    permuted.trans ((Sparsity.perm_groups_of_planned planned
      related).flatMap_right _), ofKeys,
    Invocation.pointed_append.mpr ⟨rowsPointed, keysPointed⟩⟩
  have blank : Runs (Part.control? function.keyTables) later
      [.once .blank] later [] :=
    Runs.single rfl
  have run := ((Part.runs_map_once ((runs_preparation options
    function.keyTables ⟨none, none⟩ function).append rowsRun)).append
      keysRun).append blank
  rw [List.append_nil] at run
  rw [actions?, parts, run, List.flatMap_append, ← List.append_assoc]
  rfl

end UsageFunction

end SparseLoop
