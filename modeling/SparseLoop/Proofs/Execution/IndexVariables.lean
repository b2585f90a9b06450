import SparseLoop.Proofs.Execution.ScratchDeclaration
import SparseLoop.Proofs.Routine.Accesses

/-!
# Index variables are set before they are read

A made call mentions few variables.  That of a group with one key mentions
none: its key and all patterns are numbers, and it has no guard, since one key
makes one bucket and no element with several sections.  A call in a counted
loop reads the iteration variable up to where it sets the key variable, and
both from there on.

So every iteration of a loop reads what it has assigned, nothing is read
outside of loops, and no run gets stuck, whatever the detector answers.
-/

namespace SparseLoop

open Traversal

/-! ## Chains and copies -/

namespace Chain

variable {α ν : Type} {known : List ν} {variableName : ν} {lastKey : Nat}
  {spare : IndexSet} {branches : List (IndexSet × α)} {chain : Chain α}

/-- The guards of a made chain have ranges. -/
theorem ofBranches_guards
    (made : ofBranches lastKey spare branches = .ok chain) :
    ∀ ranges ∈ chain.guards, ranges ≠ [] := by
  induction branches generalizing spare chain with
  | nil =>
    cases made
    exact nofun
  | cons branch rest ih =>
    obtain ⟨keys, body⟩ := branch
    cases rest with
    | nil =>
      cases made
      exact nofun
    | cons second others =>
      obtain ⟨following, remaining, inhabited, rfl⟩ :=
        ofBranches_cons_eq_ok made
      intro ranges member
      rcases List.mem_cons.mp member with rfl | later
      · exact IterationRange.cover_ne_nil inhabited
      · exact ih remaining ranges later

/-- A made chain tests its variable only if it has several branches. -/
theorem ofBranches_isOver (made : ofBranches lastKey spare branches = .ok chain)
    (inhabited : branches ≠ [])
    (tested : branches.length = 1 ∨ variableName ∈ known) :
    chain.IsOver known variableName where
  inhabited := ofBranches_guards made
  closed := ofBranches_otherwise made inhabited
  tested several := by
    refine tested.resolve_left fun single => several ?_
    have counted := (bodies_ofBranches made).2
    rw [single] at counted
    rw [guards, List.length_eq_zero_iff.mp counted, List.map_nil]

end Chain

section Copies

variable {isUnrolled : Bool} {known : List Symbol}
  (moving : isUnrolled = false → Symbol.iteration ∈ known)
include moving

/-- The copies of a bucket test the key only if an element has several
sections. -/
theorem BucketCopies.Arranges.isOver {lastKey : Nat} {bucket : ElementBucket}
    {shapes : List BranchShape} {copies : BucketCopies}
    (arranges : Arranges isUnrolled lastKey bucket shapes copies)
    (divided : bucket.IsDivided) {key : Nat} (member : key ∈ bucket.keys)
    (tested : (∀ element ∈ bucket.sectioned, element.sections.length = 1) ∨
      Symbol.key ∈ known) : copies.IsOver known := by
  constructor
  · intro copy listed
    rw [arranges.direct] at listed
    obtain ⟨rule, _, rfl⟩ := List.mem_map.mp listed
    exact Copy.ofPatterns_isOver rule.1 rule.2 moving
  · intro chain listed
    obtain ⟨shape, among, made⟩ :=
      exists_left_of_mem arranges.sectioned listed
    obtain ⟨element, sectioned, rfl⟩ := (arranges.occurs shape).mp among
    have partition := divided.partition element sectioned
    have length := (ElementCopy.shape_values_perm partition).length_eq
    rw [List.length_map] at length
    obtain ⟨part, present, _⟩ := divided.covered element sectioned key member
    refine Chain.ofBranches_isOver made ?_ (tested.imp_left fun single => ?_)
    · refine List.ne_nil_of_length_pos ?_
      rw [List.length_map, length]
      exact List.length_pos_of_mem present
    · rw [List.length_map, length]
      exact single element sectioned
  · intro chain listed body within copy inside
    obtain ⟨shape, _, made⟩ := exists_left_of_mem arranges.sectioned listed
    rw [(Chain.bodies_ofBranches made).1, List.map_map] at within
    obtain ⟨keys, _, rfl⟩ := List.mem_map.mp within
    obtain ⟨element, _, shared⟩ := List.mem_flatMap.mp inside
    obtain ⟨part, _, rfl⟩ := List.mem_map.mp shared
    exact Copy.ofPatterns_isOver part.target part.source moving

/-- The copies after a call test the key only if the group has several keys. -/
theorem LoopGroup.copyBack_isOver {group : LoopGroup} {sparsity : Sparsity}
    {detector : Detector} {access : GroupAccess}
    (found : group.access sparsity detector = .ok access)
    (unplaced : access.start = none)
    (tested : access.keys.length = 1 ∨ Symbol.key ∈ known)
    {chain : Chain BucketCopies}
    (made : access.copyBack isUnrolled = .ok (some chain)) :
    (Statement.copyBack chain).IsOver known := by
  have writable := access_isWritable found
  have divided := writable.divided unplaced
  have single : access.buckets.values.length = 1 ∧
      (∀ bucket ∈ access.buckets.values, ∀ element ∈ bucket.sectioned,
        element.sections.length = 1) ∨ Symbol.key ∈ known := by
    refine tested.imp_left fun once => ?_
    obtain ⟨key, listed⟩ := List.length_eq_one_iff.mp once
    exact access_single found unplaced listed
  obtain ⟨branches, _, remade, chained, related⟩ := divided.copyBack_eq_ok
    isUnrolled (List.getLast?_eq_some_getLast writable.inhabited)
  rw [made] at remade
  cases remade
  constructor
  · refine Chain.ofBranches_isOver chained ?_
      (single.imp_left fun both => related.length_eq ▸ both.1)
    obtain ⟨key, present⟩ := List.exists_mem_of_ne_nil _ writable.inhabited
    obtain ⟨bucket, listed, _⟩ := divided.covered key present
    obtain ⟨branch, among, _⟩ := exists_right_of_mem related listed
    exact List.ne_nil_of_mem among
  · intro copies member
    rw [(Chain.bodies_ofBranches chained).1] at member
    obtain ⟨branch, among, rfl⟩ := List.mem_map.mp member
    obtain ⟨bucket, listed, _, shapes, arranges⟩ :=
      exists_left_of_mem related among
    obtain ⟨key, inside⟩ := divided.inhabited bucket listed
    exact arranges.isOver moving (divided.divided bucket listed) inside
      (single.imp_left fun both => both.2 bucket listed)

end Copies

/-! ## Calls -/

/-- A row is called and copied without any variable. -/
theorem RowCall.statements_isOver (options : Options) {sparsity : Sparsity}
    {atScratch : Bool} {row : Nat} {provided : IndexSet} {call : RowCall}
    (made : make sparsity atScratch row provided = .ok call) :
    ∀ statement ∈ call.statements options, statement.IsOver [] := by
  have pointing : (Statement.point call.destination).IsOver [] ∧
      ∀ copy ∈ call.copies, copy.IsOver [] := by
    rcases make_ways made with ⟨_, ⟨start, placed⟩, none⟩ |
      ⟨_, buffered, _, positions, _, copied⟩
    · rw [placed, none]
      exact ⟨Expression.number_isOver _ _, nofun⟩
    · rw [buffered]
      refine ⟨trivial, fun copy member => ?_⟩
      obtain ⟨lists, visited, equal⟩ := bind_eq_ok_iff.mp copied
      rw [← Except.ok.inj equal] at member
      obtain ⟨list, among, inside⟩ := List.mem_flatten.mp member
      obtain ⟨element, _, found⟩ := (mem_of_mapM_eq_ok visited).mp among
      split at found
      · cases found
      · cases found
        obtain ⟨target, _, rfl⟩ := List.mem_map.mp inside
        exact ⟨Expression.number_isOver _ _, Expression.number_isOver _ _⟩
  intro statement member
  simp only [statements, List.mem_append, List.mem_singleton,
    List.mem_map] at member
  rcases member with ((rfl | pointer) | rfl) | ⟨copy, copied, rfl⟩
  · trivial
  · split at pointer
    · rw [List.mem_singleton.mp pointer]
      exact pointing.1
    · cases pointer
  · trivial
  · exact pointing.2 copy copied

theorem Words.sets_iteration (tables : List KeyTable) {words : Words}
    {value : UInt64} (moment : words.iteration = some value) :
    (words.environment tables).Sets [.iteration] := by
  intro symbol member
  rw [List.mem_singleton.mp member]
  exact ⟨value, moment⟩

namespace GroupCall

variable {group : LoopGroup} {sparsity : Sparsity} {detector : Detector}
  {access : GroupAccess} {isUnrolled atScratch : Bool} {loop name : Nat}
  {call : GroupCall} {known : List Symbol}

theorem make_key
    (made : make isUnrolled atScratch loop name access = .ok call) :
    keyOf loop name access isUnrolled = .ok call.key := by
  rw [make, bind_eq_ok_iff] at made
  obtain ⟨key, found, made⟩ := made
  split at made
  · cases made
    exact found
  · rw [bind_eq_ok_iff] at made
    obtain ⟨_, _, equal⟩ := made
    cases equal
    exact found

/-- The statements before a call. -/
def leading (scratchSize : Nat) (call : GroupCall) : List Statement :=
  (if call.setsPointer then [.point call.destination] else []) ++
    call.destination.clearing scratchSize

/-- The statements after a call. -/
def trailing (call : GroupCall) : List Statement :=
  call.copyBack.toList.map .copyBack ++ [.blank]

theorem statements_unrolled (options : Options) (naming : GroupNaming)
    (scratchSize : Nat) (call : GroupCall) :
    call.statements options naming scratchSize true =
      call.leading scratchSize ++
        .call (naming options.modelName call.loop call.group)
          (some call.key) :: call.trailing := by
  simp [statements, leading, trailing]

theorem statements_repeated (options : Options) (naming : GroupNaming)
    (scratchSize : Nat) (call : GroupCall) :
    call.statements options naming scratchSize false =
      call.leading scratchSize ++
        .setKey call.key ::
        .call (naming options.modelName call.loop call.group)
          (some (.name .key)) :: call.trailing := by
  simp [statements, leading, trailing]

/-- Before a call, only the place where it writes is computed. -/
theorem leading_isOver
    (made : make isUnrolled atScratch loop name access = .ok call)
    (moving : isUnrolled = false → Symbol.iteration ∈ known)
    (scratchSize : Nat) :
    ∀ statement ∈ call.leading scratchSize, statement.IsOver known := by
  have pointing : (Statement.point call.destination).IsOver known := by
    rcases make_ways made with ⟨⟨start, _, inPlace⟩, _⟩ | ⟨_, buffered, _⟩
    · rw [inPlace]
      exact start.current_isOver moving
    · rw [buffered]
      trivial
  intro statement member
  rcases List.mem_append.mp member with pointer | clearing
  · split at pointer
    · rw [List.mem_singleton.mp pointer]
      exact pointing
    · cases pointer
  · cases placed : call.destination with
    | result =>
      rw [placed] at clearing
      cases clearing
    | scratch =>
      rw [placed] at clearing
      rw [List.mem_singleton.mp clearing]
      trivial

/-- After a call, the key is tested only if the group has several keys. -/
theorem trailing_isOver (found : group.access sparsity detector = .ok access)
    (made : make isUnrolled atScratch loop name access = .ok call)
    (moving : isUnrolled = false → Symbol.iteration ∈ known)
    (tested : access.keys.length = 1 ∨ Symbol.key ∈ known) :
    ∀ statement ∈ call.trailing, statement.IsOver known := by
  intro statement member
  rcases List.mem_append.mp member with copied | blank
  · obtain ⟨chain, among, rfl⟩ := List.mem_map.mp copied
    rcases make_ways made with ⟨_, none⟩ | ⟨unplaced, _, after⟩
    · rw [none] at among
      cases among
    · rw [Option.mem_toList.mp among] at after
      exact LoopGroup.copyBack_isOver moving found unplaced tested after
  · rw [List.mem_singleton.mp blank]
    trivial

/-- A group with one key is called without any variable. -/
theorem statements_isOver (options : Options) (naming : GroupNaming)
    (scratchSize : Nat)
    (found : group.access sparsity detector = .ok access)
    (made : make true atScratch loop name access = .ok call)
    (single : access.keys.length = 1) :
    ∀ statement ∈ call.statements options naming scratchSize true,
      statement.IsOver [] := by
  have number : call.key.IsOver [] := by
    have keyed := make_key made
    rw [keyOf, if_pos rfl] at keyed
    split at keyed
    · rw [← Except.ok.inj keyed]
      exact Expression.number_isOver _ _
    · cases keyed
  have unrolled : true = false → Symbol.iteration ∈ [] := by simp
  intro statement member
  rw [statements_unrolled] at member
  rcases List.mem_append.mp member with before | later
  · exact leading_isOver made unrolled scratchSize statement before
  · rcases List.mem_cons.mp later with rfl | after
    · exact number
    · exact trailing_isOver found made unrolled (.inl single) statement after

/-- In a counted loop, the key of a call is found from the iteration. -/
theorem exists_key_value {tables : List KeyTable} {words : Words}
    {iteration : Nat}
    (made : make false atScratch loop name access = .ok call)
    (moment : words.iteration = some (UInt64.ofNat iteration))
    (within : iteration < access.keys.length)
    (tabled : access.keyPattern = none →
      KeyTable.entries? tables loop name = some access.keys) :
    ∃ value, call.key.value? (words.environment tables) = some value ∧
      call.key.variablesRead (words.environment tables) ⊆ [.iteration] := by
  have keyed := make_key made
  rw [keyOf, if_neg Bool.false_ne_true] at keyed
  split at keyed
  · next pattern _ =>
    rw [← Except.ok.inj keyed]
    have confined := pattern.expression_isOver Symbol.iteration
    obtain ⟨value, evaluates⟩ :=
      confined.exists_value (Words.sets_iteration tables moment)
    exact ⟨value, evaluates, confined.variablesRead_subset _⟩
  · next patternless =>
    rw [← Except.ok.inj keyed]
    have small : (UInt64.ofNat iteration).toNat < access.keys.length :=
      Nat.lt_of_le_of_lt (Nat.mod_le _ _) within
    exact ⟨_, Expression.value?_entry moment (tabled patternless)
      (List.getElem?_eq_getElem small), List.Subset.refl _⟩

/-- In a counted loop, a call reads the iteration and the key that it has
set. -/
theorem passes (options : Options) (naming : GroupNaming)
    (scratchSize : Nat) {tables : List KeyTable} {words : Words}
    {iteration : Nat}
    (found : group.access sparsity detector = .ok access)
    (made : make false atScratch loop name access = .ok call)
    (moment : words.iteration = some (UInt64.ofNat iteration))
    (within : iteration < access.keys.length)
    (tabled : access.keyPattern = none →
      KeyTable.entries? tables loop name = some access.keys) :
    ∃ value, Statement.Passes tables [.iteration] words
      (call.statements options naming scratchSize false)
      { words with key := some value } := by
  obtain ⟨value, evaluates, reads⟩ :=
    exists_key_value made moment within tabled
  have set := Words.sets_iteration tables moment
  have bothSet : (Words.environment tables
      { words with key := some value }).Sets [.key, .iteration] :=
    List.forall_mem_cons.mpr
      ⟨⟨value, rfl⟩, Words.sets_iteration tables moment⟩
  have front := Statement.passes_of_isOver
    (leading_isOver made (fun _ => List.mem_cons_self) scratchSize) set
  have calling : (Statement.call
      (naming options.modelName call.loop call.group)
      (some (.name .key))).IsOver [.key, .iteration] :=
    (Expression.name_isOver Symbol.key).mono (by simp)
  have copying : ∀ statement ∈ call.trailing,
      statement.IsOver [.key, .iteration] :=
    trailing_isOver found made (by simp) (by simp)
  have back := Statement.passes_of_isOver
    (List.forall_mem_cons.mpr ⟨calling, copying⟩) bothSet
  refine ⟨value, ?_⟩
  rw [statements_repeated]
  exact front.append (.setKey evaluates reads back)

end GroupCall

/-! ## The function -/

namespace UsageFunction

variable {sparsity : Sparsity} {detector : Detector} {plan : CallPlan}
  {function : UsageFunction}

theorem preparation_isOver (options : Options) (function : UsageFunction) :
    ∀ statement ∈ function.preparation options, statement.IsOver [] := by
  intro statement member
  simp only [preparation, List.mem_append, List.mem_cons, List.mem_map,
    List.not_mem_nil, or_false] at member
  rcases member with ((rfl | rfl) | ⟨_, _, rfl⟩) | rfl | rfl | rfl <;> trivial

theorem rowStatements_isOver (options : Options)
    (made : make sparsity plan = .ok function) :
    ∀ statement ∈ function.rowStatements options, statement.IsOver [] := by
  obtain ⟨_, _, _, rowsMade, _⟩ := make_eq_ok made
  intro statement member
  rw [rowStatements] at member
  split at member
  · cases member
  · rcases List.mem_append.mp member with ofCall | blank
    · obtain ⟨call, among, inside⟩ := List.mem_flatMap.mp ofCall
      obtain ⟨_, _, _, one⟩ :=
        exists_left_of_mem (RowCall.makeAll_made rowsMade) among
      exact RowCall.statements_isOver options one statement inside
    · rw [List.mem_singleton.mp blank]
      trivial

/-- Each call of a round is made for a group with as many keys as the round
has iterations. -/
theorem exists_group (planned : sparsity.callPlan detector = .ok plan)
    (made : make sparsity plan = .ok function) {round : Round}
    (present : round ∈ function.rounds) {call : GroupCall}
    (listed : call ∈ round.calls) :
    ∃ group ∈ sparsity.groups, ∃ access known,
      group.access sparsity detector = .ok access ∧
      access.keys.length = round.count ∧
      GroupCall.make round.isUnrolled known group.loop group.group access =
        .ok call ∧
      (round.count, group.loop, group.group, access) ∈ plan.calls := by
  obtain ⟨_, _, _, _, roundsMade⟩ := make_eq_ok made
  obtain ⟨⟨count, loop, name, access⟩, stored, counted, known, one⟩ :=
    (Round.exists_made roundsMade).2 round present call listed
  obtain ⟨group, member, rfl, rfl, found, length⟩ :=
    (Sparsity.mem_calls_callPlan planned).mp stored
  exact ⟨group, member, access, known, found, length.trans counted.symm, one,
    counted ▸ stored⟩

/-- Each group has its call in a round. -/
theorem exists_call (planned : sparsity.callPlan detector = .ok plan)
    (made : make sparsity plan = .ok function) {group : LoopGroup}
    (member : group ∈ sparsity.groups) :
    ∃ round ∈ function.rounds, ∃ call ∈ round.calls,
      call.loop = group.loop ∧ call.group = group.group := by
  obtain ⟨_, _, _, _, roundsMade⟩ := make_eq_ok made
  obtain ⟨accesses, related, _⟩ := Sparsity.callPlan_eq_ok planned
  obtain ⟨access, _, found⟩ := exists_right_of_mem related member
  have stored := (Sparsity.mem_calls_callPlan planned).mpr
    ⟨group, member, rfl, rfl, found, rfl⟩
  obtain ⟨round, present, call, listed, _, _, one⟩ :=
    (Round.exists_made roundsMade).1 _ stored
  have place := GroupCall.make_place one
  rw [Prod.mk.injEq] at place
  exact ⟨round, present, call, listed, place⟩

/-- The calls of a round pass at each of its iterations. -/
theorem round_passes (options : Options) (naming : GroupNaming)
    (planned : sparsity.callPlan detector = .ok plan)
    (made : make sparsity plan = .ok function) {round : Round}
    (present : round ∈ function.rounds) (repeated : round.isUnrolled = false)
    {iteration : Nat} (within : iteration < round.count) (words : Words)
    (moment : words.iteration = some (UInt64.ofNat iteration)) :
    ∃ after, Statement.Passes function.keyTables [.iteration] words
      (round.calls.flatMap (GroupCall.statements options naming
        function.scratchSize false)) after := by
  have several : 1 < round.count := by
    have other : round.count ≠ 1 := fun single => by
      simp [Round.isUnrolled, single] at repeated
    omega
  have each : ∀ call ∈ round.calls, ∀ before : Words,
      before.iteration = some (UInt64.ofNat iteration) →
        ∃ after : Words, after.iteration = some (UInt64.ofNat iteration) ∧
          Statement.Passes function.keyTables [.iteration] before
            (call.statements options naming function.scratchSize false)
            after := by
    intro call listed before now
    obtain ⟨group, _, access, known, found, counted, one, stored⟩ :=
      exists_group planned made present listed
    rw [repeated] at one
    have tabled : access.keyPattern = none →
        KeyTable.entries? function.keyTables group.loop group.group =
          some access.keys := by
      rw [(make_eq_ok made).2.2.1]
      exact CallPlan.entries?_keyTables (Sparsity.calls_distinct planned)
        stored counted several
    obtain ⟨value, passes⟩ := GroupCall.passes options naming
      function.scratchSize found one now (counted.symm ▸ within) tabled
    exact ⟨{ before with key := some value }, now, passes⟩
  obtain ⟨after, _, passes⟩ := Statement.passes_flatMap each words moment
  exact ⟨after, passes⟩

/-- Where a round is unrolled, its calls mention no variable. -/
theorem unrolled_isOver (options : Options) (naming : GroupNaming)
    (planned : sparsity.callPlan detector = .ok plan)
    (made : make sparsity plan = .ok function) {round : Round}
    (present : round ∈ function.rounds) (once : round.isUnrolled = true)
    {call : GroupCall} (listed : call ∈ round.calls) :
    ∀ statement ∈ call.statements options naming function.scratchSize
      round.isUnrolled, statement.IsOver [] := by
  obtain ⟨group, _, access, known, found, counted, one, _⟩ :=
    exists_group planned made present listed
  rw [once] at one ⊢
  exact GroupCall.statements_isOver options naming function.scratchSize found
    one (counted.trans (beq_iff_eq.mp once))

theorem parts_isSafe (options : Options) (naming : GroupNaming)
    (planned : sparsity.callPlan detector = .ok plan)
    (made : make sparsity plan = .ok function) :
    ∀ part ∈ function.parts options naming,
      part.IsSafe function.keyTables := by
  have once : ∀ statements : List Statement,
      (∀ statement ∈ statements, statement.IsOver []) →
        ∀ part ∈ statements.map Part.once,
          part.IsSafe function.keyTables := by
    intro statements confined part member
    obtain ⟨statement, among, rfl⟩ := List.mem_map.mp member
    exact Part.once_isSafe (confined statement among)
  rw [parts, List.forall_mem_append, List.forall_mem_append]
  refine ⟨⟨once _ ?_, ?_⟩, once [.blank] (by simp [Statement.IsOver])⟩
  · exact List.forall_mem_append.mpr ⟨preparation_isOver options function,
      rowStatements_isOver options made⟩
  · intro part member
    obtain ⟨round, present, inside⟩ := List.mem_flatMap.mp member
    rw [Round.parts] at inside
    split at inside
    · next unrolled =>
      refine once _ (fun statement listed => ?_) part inside
      obtain ⟨call, among, ofCall⟩ := List.mem_flatMap.mp listed
      exact unrolled_isOver options naming planned made present unrolled among
        statement ofCall
    · next repeated =>
      rw [List.mem_singleton.mp inside]
      rw [Bool.not_eq_true] at repeated
      refine Part.counted_isSafe fun iteration within words moment => ?_
      rw [repeated]
      exact round_passes options naming planned made present repeated within
        words moment

end UsageFunction

namespace Request

variable {request : Request} {naming : GroupNaming} {detector : Detector}
  {source : GeneratedSource}

/-- A generated function runs to its end and reads an index variable only
inside a counted loop, after it was assigned in the same iteration.  The calls
of groups with one key stand outside of loops, have no guard and mention
neither variable. -/
theorem index_variables_set_before_read
    (generated : request.generateWith naming detector = .ok source) :
    ∃ plan function, request.usage.callPlan detector = .ok plan ∧
      UsageFunction.make request.usage plan = .ok function ∧
      source.usage = function.text request.options naming ∧
      function.text request.options naming =
        textOfLines (function.lines request.options naming) ∧
      (∃ actions, function.actions? request.options naming = some actions) ∧
      (∀ stretch ∈ function.stretches request.options naming,
        ∀ before symbol after,
          stretch.accesses = before ++ .read symbol :: after →
            stretch.isRepeated = true ∧ .assign symbol ∈ before) ∧
      ∀ group ∈ request.usage.groups,
        (∃ round ∈ function.rounds, ∃ call ∈ round.calls,
          call.loop = group.loop ∧ call.group = group.group) ∧
        ∀ round ∈ function.rounds, ∀ call ∈ round.calls,
          call.loop = group.loop → call.group = group.group →
            (round.isUnrolled = true ↔ group.elements.keyList.length = 1) ∧
            (group.elements.keyList.length = 1 →
              ∀ statement ∈ call.statements request.options naming
                function.scratchSize round.isUnrolled,
                statement.guards = [] ∧ statement.variableNames = []) := by
  obtain ⟨plan, function, planned, made, written, _⟩ :=
    generateWith_eq_ok generated
  obtain ⟨runs, fresh⟩ := UsageFunction.runs_of_isSafe
    (UsageFunction.parts_isSafe request.options naming planned made)
  refine ⟨plan, function, planned, made, written,
    UsageFunction.text_eq _ _ _, runs, fresh,
    fun group member => ⟨UsageFunction.exists_call planned made member, ?_⟩⟩
  intro round present call listed sameLoop sameGroup
  obtain ⟨other, among, access, known, found, counted, one, _⟩ :=
    UsageFunction.exists_group planned made present listed
  have place := GroupCall.make_place one
  rw [sameLoop, sameGroup] at place
  cases List.inj_on_of_nodup_map request.usage.groups_distinct member among
    place
  have unrolled : round.isUnrolled = true ↔
      group.elements.keyList.length = 1 := by
    rw [Round.isUnrolled, beq_iff_eq, ← counted,
      (LoopGroup.access_eq_ok found).1]
  refine ⟨unrolled, fun single statement inside => ?_⟩
  have confined := UsageFunction.unrolled_isOver request.options naming planned
    made present (unrolled.mpr single) listed statement inside
  exact ⟨confined.guards_eq_nil,
    List.subset_nil.mp confined.variableNames_subset⟩

/-- A group of one key with two elements, and one whose keys have different
numbers of elements. -/
def unevenKeys : Request where
  usage :=
    { loopGroups := IndexMap.ofList
        [(0, IndexMap.ofList
          [(0, IndexMap.ofList [(3, IndexSet.ofList [0, 1])]),
            (1, IndexMap.ofList
              [(0, IndexSet.ofList [0]), (1, IndexSet.ofList [0, 1]),
                (2, IndexSet.ofList [0])])])]
      locations := IndexMap.ofList
        [(0, [IndexSet.ofList [5]]),
          (1, [IndexSet.ofList [2], IndexSet.ofList [0]]),
          (2, [IndexSet.ofList [6]]),
          (3, [IndexSet.ofList [1], IndexSet.ofList [4]])]
      ordered := IndexMap.ofList
        [(0, false), (1, false), (2, false), (3, false)]
      entryCount := 7 }

/-- Without any pattern, guards read the key variable in the loop of the second
group, and the call of the first has none. -/
theorem unevenKeys_set_before_read :
    ∃ source function,
      unevenKeys.generateWith GroupNaming.short Detector.never =
        .ok source ∧
      source.usage =
        UsageFunction.text unevenKeys.options GroupNaming.short function ∧
      (∃ actions, function.actions? unevenKeys.options GroupNaming.short =
        some actions) ∧
      (∀ stretch ∈ function.stretches unevenKeys.options GroupNaming.short,
        stretch.IsFresh) ∧
      (∃ stretch ∈ function.stretches unevenKeys.options GroupNaming.short,
        .read .key ∈ stretch.accesses) ∧
      ∃ round ∈ function.rounds, ∃ call ∈ round.calls,
        round.isUnrolled = true ∧
        ∀ statement ∈ call.statements unevenKeys.options GroupNaming.short
          function.scratchSize round.isUnrolled,
          statement.guards = [] ∧ statement.variableNames = [] := by
  have checked : (do
      let plan ← unevenKeys.usage.callPlan Detector.never
      let function ← UsageFunction.make unevenKeys.usage plan
      let _ ← UsageFunction.generate unevenKeys.options unevenKeys.usage plan
        GroupNaming.short
      pure (decide (∃ stretch ∈
        function.stretches unevenKeys.options GroupNaming.short,
          .read .key ∈ stretch.accesses))) =
      (.ok true : Except Failure Bool) :=
    rfl
  obtain ⟨plan, function, _, planned, made, _, reads⟩ :=
    UsageFunction.exists_of_checked checked
  obtain ⟨source, generated⟩ :
      ∃ source, unevenKeys.generateWith GroupNaming.short Detector.never =
        .ok source :=
    exists_of_isOk rfl
  obtain ⟨_, _, again, madeAgain, written, _, runs, fresh, groups⟩ :=
    index_variables_set_before_read generated
  rw [planned] at again
  cases again
  rw [made] at madeAgain
  cases madeAgain
  have single : ⟨0, 0, IndexMap.ofList [(3, IndexSet.ofList [0, 1])]⟩ ∈
      unevenKeys.usage.groups := by
    decide
  obtain ⟨⟨round, present, call, listed, sameLoop, sameGroup⟩, each⟩ :=
    groups _ single
  obtain ⟨unrolled, bare⟩ :=
    each round present call listed sameLoop sameGroup
  exact ⟨source, function, generated, written, runs, fresh,
    of_decide_eq_true reads, round, present, call, listed, unrolled.mpr rfl,
    bare rfl⟩

end Request

end SparseLoop
