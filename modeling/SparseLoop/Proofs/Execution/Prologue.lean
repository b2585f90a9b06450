import SparseLoop.Proofs.Execution.ScratchDeclaration
import SparseLoop.Proofs.Json.Spelling

/-!
# The prologue of a usage function

A usage function begins with its parameters and variables and with the
preparation of the local inputs.  Three of the names in it are chosen by the
caller, as is the number of local inputs.  The others belong to the generator:
most are fixed, and each key table is named for its loop and group.

The names of the generator never meet each other, since a number ends where its
digits end (`keyTable_name_injective`).  The names of the caller are held
against the element counter only, and only those of the index variables; the
number of local inputs is not looked at.  So a prologue is well formed exactly
if the remaining names are apart and two local inputs have room.
-/

namespace SparseLoop

open Traversal Json.Spelling

/-! ## The names of key tables -/

/-- Key tables of different groups have different names. -/
theorem keyTable_name_injective (options : Options)
    {loop group otherLoop otherGroup : Nat}
    (same : options.spell (.keyTable loop group) =
      options.spell (.keyTable otherLoop otherGroup)) :
    loop = otherLoop ∧ group = otherGroup := by
  have characters : ∀ loop group : Nat,
      (options.spell (.keyTable loop group)).toList =
        "keys_l".toList ++
          (digits loop ++ '_' :: 'g' :: digits group) := by
    intro loop group
    simp [Options.spell, toString, digits]
  rw [← String.toList_inj, characters, characters] at same
  obtain ⟨loops, rest⟩ :=
    digits_append_injective rfl (List.append_cancel_left same)
  exact ⟨loops, digits_injective (List.cons.inj rest).2⟩

namespace UsageFunction

variable {options : Options} {function : UsageFunction}

/-- The declared names are the identifiers of the function. -/
theorem names_declarations (options : Options) (function : UsageFunction) :
    (function.declarations options).map (·.name) =
      function.identifiers options := by
  rw [declarations, parameters, localVariables, identifiers]
  split <;> simp [KeyTable.declaration]

/-- The names that the generator gives, apart from the element counter and the
key tables. -/
def fixedNames (function : UsageFunction) : List String :=
  ["in", "out", "atomicFun", "inLocal", "inLocal1", "outLocal"] ++
    (if 0 < function.scratchSize then ["compressed"] else [])

/-- The names of the key tables. -/
def tableNames (options : Options) (function : UsageFunction) : List String :=
  function.keyTables.map fun table =>
    options.spell (.keyTable table.loop table.group)

/-- The names that the caller chooses. -/
def chosenNames (options : Options) : List String :=
  [options.iterationName, options.keyName, options.resultName]

theorem identifiers_perm :
    (function.identifiers options).Perm
      (chosenNames options ++
        (function.fixedNames ++ counterName ::
          function.tableNames options)) := by
  rw [List.perm_iff_count]
  intro name
  simp only [identifiers, chosenNames, fixedNames, tableNames,
    List.count_append, List.count_cons, List.count_nil]
  omega

theorem tableNames_nodup_iff :
    (function.tableNames options).Nodup ↔
      (function.keyTables.map fun table =>
        (table.loop, table.group)).Nodup := by
  have injective : Function.Injective fun place : Nat × Nat =>
      options.spell (.keyTable place.1 place.2) := by
    intro first second same
    obtain ⟨loops, groups⟩ := keyTable_name_injective options same
    exact Prod.ext loops groups
  rw [← List.nodup_map_iff injective, List.map_map]
  rfl

theorem head?_of_mem_tableNames {name : String}
    (member : name ∈ function.tableNames options) :
    name.toList.head? = some 'k' := by
  obtain ⟨table, -, rfl⟩ := List.mem_map.mp member
  simp [Options.spell, toString]

theorem head?_of_mem_fixedNames {name : String}
    (member : name ∈ function.fixedNames ++ [counterName]) :
    name.toList.head? ≠ some 'k' := by
  have other_letter : ∀ name ∈ ["in", "out", "atomicFun", "inLocal",
      "inLocal1", "outLocal", "compressed", counterName],
      name.toList.head? ≠ some 'k' := by
    decide
  apply other_letter
  rw [fixedNames] at member
  split at member <;> grind

/-- The names of the generator are apart if the key tables are: no fixed name
begins like that of a key table. -/
theorem ownNames_nodup_iff :
    (function.fixedNames ++ counterName ::
        function.tableNames options).Nodup ↔
      (function.keyTables.map fun table =>
        (table.loop, table.group)).Nodup := by
  have fixed : (function.fixedNames ++ [counterName]).Nodup := by
    rw [fixedNames]
    split <;> decide
  rw [List.append_cons, List.nodup_append, ← tableNames_nodup_iff]
  constructor
  · exact fun apart => apart.2.1
  · intro tables
    refine ⟨fixed, tables, fun name first other second same => ?_⟩
    subst same
    exact head?_of_mem_fixedNames first (head?_of_mem_tableNames second)

/-- Identifiers are distinct if the names that the caller chooses are apart
from each other and from the names of the generator. -/
theorem identifiers_nodup_iff :
    (function.identifiers options).Nodup ↔
      (chosenNames options).Nodup ∧
        (∀ name ∈ chosenNames options, name ≠ counterName ∧
          name ∉ function.fixedNames ∧ name ∉ function.tableNames options) ∧
        (function.keyTables.map fun table =>
          (table.loop, table.group)).Nodup := by
  rw [identifiers_perm.nodup_iff, List.nodup_append, ownNames_nodup_iff]
  grind

end UsageFunction

/-- The key tables of a plan made for a description are those of different
groups. -/
theorem CallPlan.keyTables_distinct {sparsity : Sparsity}
    {detector : Detector} {plan : CallPlan}
    (planned : sparsity.callPlan detector = .ok plan) :
    (plan.keyTables.map fun table => (table.loop, table.group)).Nodup := by
  have distinct := List.pairwise_map.mp (Sparsity.calls_distinct planned)
  rw [List.Nodup, List.pairwise_map, keyTables]
  refine distinct.filterMap _ ?_
  intro call other apart table made otherTable otherMade
  rw [Option.ite_none_right_eq_some, Option.some.injEq] at made otherMade
  obtain ⟨-, rfl⟩ := made
  obtain ⟨-, rfl⟩ := otherMade
  exact apart

/-! ## The local inputs -/

/-- The local input that a statement sets, if it sets one. -/
def Statement.inputSlot? : Statement → Option Nat
  | takeInput slot _ => some slot
  | takeUnit => some 1
  | _ => none

theorem RowCall.inputSlots_statements (options : Options) (call : RowCall) :
    (call.statements options).filterMap Statement.inputSlot? = [] := by
  cases pointed : call.setsPointer <;>
    simp [statements, pointed, Statement.inputSlot?]

theorem GroupCall.inputSlots_statements (options : Options)
    (naming : GroupNaming) (scratchSize : Nat) (isUnrolled : Bool)
    (call : GroupCall) :
    (call.statements options naming scratchSize isUnrolled).filterMap
      Statement.inputSlot? = [] := by
  obtain ⟨loop, group, destination, setsPointer, key, copyBack⟩ := call
  cases destination <;> cases setsPointer <;> cases isUnrolled <;>
    cases copyBack <;>
    simp [statements, Statement.inputSlot?, Destination.clearing]

namespace UsageFunction

variable {options : Options} {naming : GroupNaming} {sparsity : Sparsity}
  {plan : CallPlan} {text : String}

/-- The preparation sets the local inputs one after the other, and the first
two of them whatever their number is. -/
theorem inputSlots_preparation (options : Options)
    (function : UsageFunction) :
    (function.preparation options).filterMap Statement.inputSlot? =
      List.range (max 2 options.inputCount) := by
  have count : max 2 options.inputCount = 2 + (options.inputCount - 2) := by
    omega
  rw [count, List.range_add]
  simp [preparation, Statement.inputSlot?, List.filterMap_map,
    List.range_succ, Function.comp_def, Nat.add_comm]

/-- Only the preparation sets local inputs. -/
theorem inputSlots_statements (options : Options) (naming : GroupNaming)
    (function : UsageFunction) :
    (function.statements options naming).filterMap Statement.inputSlot? =
      List.range (max 2 options.inputCount) := by
  have rows : (function.rowStatements options).filterMap
      Statement.inputSlot? = [] := by
    rw [rowStatements]
    split
    · rfl
    · rw [List.filterMap_append, List.filterMap_flatMap]
      simp [RowCall.inputSlots_statements, Statement.inputSlot?]
  rw [statements_eq, List.filterMap_append, List.filterMap_append,
    List.filterMap_append, inputSlots_preparation, rows]
  simp [List.filterMap_flatMap, GroupCall.inputSlots_statements,
    Statement.inputSlot?]

/-- The local inputs are set inside their array exactly if it has room for
two. -/
theorem forall_inputSlot?_lt_iff (options : Options) (naming : GroupNaming)
    (function : UsageFunction) :
    (∀ statement ∈ function.statements options naming, ∀ slot,
        statement.inputSlot? = some slot → slot < options.inputCount) ↔
      2 ≤ options.inputCount := by
  have set : ∀ slot, (∃ statement ∈ function.statements options naming,
      statement.inputSlot? = some slot) ↔ slot < max 2 options.inputCount := by
    intro slot
    rw [← List.mem_filterMap, inputSlots_statements, List.mem_range]
  constructor
  · intro inside
    obtain ⟨statement, member, second⟩ := (set 1).mpr (by omega)
    exact inside statement member 1 second
  · intro room statement member slot found
    have below := (set slot).mp ⟨statement, member, found⟩
    omega

/-- Where a usage function is generated, its text begins with its declarations.
The declared names are distinct exactly if the names that the caller chooses
are apart from each other and from those of the generator, and the key tables
are those of different groups.  The check before the generation has seen to it
that no index variable is the element counter, and a plan made for the
description has each group once.  The local inputs are set inside their array
exactly if it has room for two. -/
theorem prologue_wellFormed_iff
    (generated : generate options sparsity plan naming = .ok text) :
    ∃ function, make sparsity plan = .ok function ∧
      text = textOfLines
        ([s!"void {options.usageFunction}(" ++
            ", ".intercalate ((parameters options).map Declaration.text) ++
              ") \x7b"] ++
          (function.localVariables options).map
            (fun declaration => indented 1 declaration.text) ++ [""] ++
          (function.parts options naming).flatMap (Part.lines options) ++
          ["\x7d"]) ∧
      (((function.declarations options).map (·.name)).Nodup ↔
        (chosenNames options).Nodup ∧
          (∀ name ∈ chosenNames options, name ∉ function.fixedNames ∧
            name ∉ function.tableNames options) ∧
          options.resultName ≠ counterName ∧
          (function.keyTables.map fun table =>
            (table.loop, table.group)).Nodup) ∧
      (∀ detector, sparsity.callPlan detector = .ok plan →
        (function.keyTables.map fun table =>
          (table.loop, table.group)).Nodup) ∧
      ((∀ statement ∈ function.statements options naming, ∀ slot,
          statement.inputSlot? = some slot → slot < options.inputCount) ↔
        2 ≤ options.inputCount) := by
  obtain ⟨function, made, written⟩ := generate_eq_ok generated
  rw [generate, bind_eq_ok_iff] at generated
  obtain ⟨_, checked, _⟩ := generated
  obtain ⟨iteration, key⟩ := checkNames_eq_ok_iff.mp checked
  refine ⟨function, made, ?_, ?_, ?_, ?_⟩
  · rw [written, text_eq, lines]
  · rw [names_declarations, identifiers_nodup_iff]
    simp only [chosenNames, List.forall_mem_cons, counterName]
    tauto
  · intro detector planned
    rw [(make_eq_ok made).2.2.1]
    exact CallPlan.keyTables_distinct planned
  · exact forall_inputSlot?_lt_iff options naming function

/-- A group with keys that no pattern gives, so that it needs a key table. -/
def tabledKeys : Sparsity where
  loopGroups := IndexMap.ofList
    [(4, IndexMap.ofList
      [(1, IndexMap.ofList
        [ (0, IndexSet.ofList [0]), (1, IndexSet.ofList [0]),
          (3, IndexSet.ofList [0]) ])])]
  locations := IndexMap.ofList
    [ (0, [IndexSet.ofList [2]]), (1, [IndexSet.ofList [0]]),
      (3, [IndexSet.ofList [1]]) ]
  ordered := IndexMap.ofList [(0, false), (1, false), (3, false)]
  entryCount := 3

/-- Under the default options a function with a scratch buffer and a key table
has a well-formed prologue. -/
theorem tabledKeys_prologue_wellFormed :
    ∃ plan text function,
      tabledKeys.callPlan Detector.affine = .ok plan ∧
      generate {} tabledKeys plan GroupNaming.short = .ok text ∧
      make tabledKeys plan = .ok function ∧
      function.fixedNames.getLast? = some "compressed" ∧
      function.tableNames {} = ["keys_l4_g1"] ∧
      ((function.declarations {}).map (·.name)).Nodup ∧
      ∀ statement ∈ function.statements {} GroupNaming.short, ∀ slot,
        statement.inputSlot? = some slot → slot < 3 := by
  have checked : (do
      let plan ← tabledKeys.callPlan Detector.affine
      let function ← make tabledKeys plan
      let _ ← generate {} tabledKeys plan GroupNaming.short
      pure (decide (function.fixedNames.getLast? = some "compressed" ∧
        function.tableNames {} = ["keys_l4_g1"] ∧
        ∀ name ∈ chosenNames {}, name ∉ function.fixedNames ∧
          name ∉ function.tableNames {}))) =
      (.ok true : Except Failure Bool) :=
    rfl
  obtain ⟨plan, function, text, planned, made, generated, facts⟩ :=
    exists_of_checked checked
  obtain ⟨buffer, tables, apart⟩ := of_decide_eq_true facts
  obtain ⟨same, again, _, names, distinct, slots⟩ :=
    prologue_wellFormed_iff generated
  rw [made] at again
  cases again
  exact ⟨plan, text, function, planned, generated, made, buffer, tables,
    names.mpr ⟨by decide, apart, by decide, distinct _ planned⟩,
    slots.mpr (by decide)⟩

/-- The checks let through a result named like the element counter, which is
then declared twice, and an array for one local input, in which two are set. -/
theorem accepted_options_break_prologue :
    (∃ plan text function,
      tabledKeys.callPlan Detector.affine = .ok plan ∧
      generate { resultName := "e" } tabledKeys plan GroupNaming.short =
        .ok text ∧
      make tabledKeys plan = .ok function ∧
      ¬ ((function.declarations { resultName := "e" }).map
        (·.name)).Nodup) ∧
    ∃ plan text function,
      tabledKeys.callPlan Detector.affine = .ok plan ∧
      generate { inputCount := 1 } tabledKeys plan GroupNaming.short =
        .ok text ∧
      make tabledKeys plan = .ok function ∧
      ∃ statement ∈ function.statements { inputCount := 1 } GroupNaming.short,
        statement.inputSlot? = some 1 := by
  constructor
  · have checked : (do
        let plan ← tabledKeys.callPlan Detector.affine
        let function ← make tabledKeys plan
        let _ ← generate { resultName := "e" } tabledKeys plan
          GroupNaming.short
        pure (decide (¬ ((function.declarations { resultName := "e" }).map
          (·.name)).Nodup))) = (.ok true : Except Failure Bool) :=
      rfl
    obtain ⟨plan, function, text, planned, made, generated, facts⟩ :=
      exists_of_checked checked
    exact ⟨plan, text, function, planned, generated, made,
      of_decide_eq_true facts⟩
  · have checked : (do
        let plan ← tabledKeys.callPlan Detector.affine
        let function ← make tabledKeys plan
        let _ ← generate { inputCount := 1 } tabledKeys plan
          GroupNaming.short
        pure (decide (∃ statement ∈ function.statements { inputCount := 1 }
          GroupNaming.short, statement.inputSlot? = some 1))) =
        (.ok true : Except Failure Bool) :=
      rfl
    obtain ⟨plan, function, text, planned, made, generated, facts⟩ :=
      exists_of_checked checked
    exact ⟨plan, text, function, planned, generated, made,
      of_decide_eq_true facts⟩

end UsageFunction

end SparseLoop
