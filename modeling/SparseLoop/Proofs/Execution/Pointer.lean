import SparseLoop.Proofs.Execution.Pieces
import SparseLoop.Proofs.Sparsity.OrderFlags

/-!
# The output pointer at each call

Where a call writes to the scratch buffer, the function leaves out the
statement that sets the output pointer as long as the previous call wrote
there, too.  The flag that decides this is carried along the text of the
function, while a run repeats the bodies of its loops.

The flag is right where it is carried: from a row to the next one and from the
rows to a round without a loop.  At the beginning of a loop body it is dropped,
and after a loop, whose body ran at least once, it is that of the body.  So
every call finds the pointer at its target.
-/

namespace SparseLoop

open Traversal

/-! ## The function that always sets the pointer -/

/-- The call with the pointer set before it. -/
def RowCall.pointing (call : RowCall) : RowCall :=
  { call with setsPointer := true }

/-- The call with the pointer set before it. -/
def GroupCall.pointing (call : GroupCall) : GroupCall :=
  { call with setsPointer := true }

/-- The round with the pointer set before each call. -/
def Round.pointing (round : Round) : Round :=
  { round with calls := round.calls.map GroupCall.pointing }

/-- The function with the pointer set before each call. -/
def UsageFunction.pointing (function : UsageFunction) : UsageFunction :=
  { function with
    rowCalls := function.rowCalls.map RowCall.pointing
    rounds := function.rounds.map Round.pointing }

/-! ## Calls -/

/-- A destination suits a planned call if it lies at the target of the call and
the pointer is set unless it is known to be there. -/
structure Destination.Suits (destination : Destination)
    (sparsity : Sparsity) (tables : List KeyTable) (isUnrolled : Bool)
    (iteration : Nat) (atScratch setsPointer : Bool) (planned : PlannedCall)
    (place : Buffer × Nat) : Prop where
  targets : planned.Targets sparsity place
  lies : destination.LiesAt tables isUnrolled iteration place
  pointed : setsPointer = true ∨
    knownTarget atScratch = some place ∧ place = (.scratch, 0)
  scratch : (destination == .scratch) = true → place = (.scratch, 0)

/-- The scratch buffer suits a call that has to write there. -/
theorem Destination.scratch_suits {sparsity : Sparsity}
    {tables : List KeyTable} {isUnrolled : Bool} {iteration : Nat}
    {planned : PlannedCall} (atScratch : Bool)
    (targets : planned.Targets sparsity (.scratch, 0)) :
    scratch.Suits sparsity tables isUnrolled iteration atScratch
      (!atScratch) planned (.scratch, 0) where
  targets := targets
  lies _ _ := rfl
  pointed := by
    cases atScratch with
    | false => exact .inl rfl
    | true => exact .inr ⟨rfl, rfl⟩
  scratch _ := rfl

section Calls

variable {V : Type} [AddCommMonoid V] {setting : Setting V}
  {sparsity : Sparsity} (options : Options) (naming : GroupNaming)
  (scratchSize : Nat)

namespace RowCall

theorem exists_suits (tables : List KeyTable) {atScratch : Bool} {row : Nat}
    {provided : IndexSet} {call : RowCall}
    (within : sparsity.locations.Within (2 ^ 64))
    (made : make sparsity atScratch row provided = .ok call) :
    call.row = row ∧ ∃ place, call.destination.Suits sparsity tables true 0
      atScratch call.setsPointer (.row row provided) place := by
  rw [make, bind_eq_ok_iff] at made
  obtain ⟨positions, _, made⟩ := made
  rw [bind_eq_ok_iff] at made
  obtain ⟨isOrdered, flagged, made⟩ := made
  rw [Sparsity.isOrdered_eq_ok_iff] at flagged
  cases isOrdered with
  | true =>
    rw [if_pos rfl, bind_eq_ok_iff] at made
    obtain ⟨start, started, equal⟩ := made
    cases equal
    have small : start < 2 ^ 64 :=
      (Locations.orderedStart_eq_ok started).1.position_lt within
    refine ⟨rfl, (.result, start), .orderedRow flagged started, ?_,
      .inl rfl, fun equal => Destination.noConfusion (beq_iff_eq.mp equal)⟩
    intro words _
    simp [Destination.action?, Word.ofInt_natCast, Word.toNat_ofNat small]
  | false =>
    rw [if_neg Bool.false_ne_true, bind_eq_ok_iff] at made
    obtain ⟨copies, _, equal⟩ := made
    cases equal
    exact ⟨rfl, (.scratch, 0),
      Destination.scratch_suits atScratch (.unorderedRow flagged)⟩

/-- The statements of a row lead to its call. -/
theorem leads {atScratch : Bool} {row : Nat} {provided : IndexSet}
    {call : RowCall} (within : sparsity.locations.Within (2 ^ 64))
    (made : make sparsity atScratch row provided = .ok call) :
    Leads setting
      (PlannedCall.IsMetBy options naming sparsity scratchSize)
      (Moment.Knows true 0 (knownTarget atScratch) 0)
      (Moment.Knows true 0 (knownTarget (call.destination == .scratch)) 0)
      ((call.statements options).map .run)
      ((call.pointing.statements options).map .run)
      [.row row provided] := by
  obtain ⟨rfl, place, suits⟩ := exists_suits setting.tables within made
  have met : ∀ moment : Moment V, moment.Knows true 0 (some place) 0 →
      PlannedCall.IsMetBy options naming sparsity scratchSize
        (.row call.row provided)
        ⟨options.rowFunction call.row, moment.memory⟩ :=
    fun moment known =>
      ⟨rfl, ⟨place, suits.targets, known.pointer _ rfl⟩,
        fun needed => absurd needed Bool.false_ne_true⟩
  have added : ∀ statement ∈ call.copies.map Statement.add,
      statement.isQuiet = true := by
    intro statement member
    obtain ⟨_, _, rfl⟩ := List.mem_map.mp member
    rfl
  have blank : Leads setting
      (PlannedCall.IsMetBy options naming sparsity scratchSize)
      (Moment.Knows true 0 (knownTarget atScratch) 0)
      (Moment.Knows true 0 (knownTarget atScratch) 0)
      ([.blank].map .run) ([.blank].map .run) [] :=
    Leads.quiet (by simp [Statement.isQuiet])
  have whole := ((blank.append (.point suits.lies suits.pointed)).append
    (.call none met)).append (.quiet added)
  simp only [statements, pointing, List.map_append]
  exact whole.weaken (fun _ known => known) fun _ known =>
    known.remember suits.scratch

theorem makeAll_leads {atScratch : Bool} {entries : List (Nat × IndexSet)}
    {calls : List RowCall} (within : sparsity.locations.Within (2 ^ 64))
    (made : makeAll sparsity atScratch entries = .ok calls) :
    Leads setting
      (PlannedCall.IsMetBy options naming sparsity scratchSize)
      (Moment.Knows true 0 (knownTarget atScratch) 0)
      (Moment.Knows true 0 (knownTarget (endsAtScratch atScratch calls)) 0)
      ((calls.flatMap (statements options)).map .run)
      (((calls.map pointing).flatMap (statements options)).map .run)
      (entries.map fun (row, provided) => .row row provided) := by
  induction entries generalizing atScratch calls with
  | nil =>
    cases made
    exact .nil
  | cons entry rest ih =>
    obtain ⟨row, provided⟩ := entry
    obtain ⟨call, others, one, remaining, rfl⟩ :=
      makeAll_cons_eq_ok.mp made
    simp only [List.map_cons, List.flatMap_cons, List.map_append,
      endsAtScratch_cons]
    exact (leads options naming scratchSize within one).append
      (ih remaining)

end RowCall

/-- Where a call writes to the scratch buffer, it is cleared before. -/
theorem Destination.clearing_leads {Meets : PlannedCall → Visit V → Prop}
    {isUnrolled : Bool} {iteration : Nat} {target : Option (Buffer × Nat)}
    (destination : Destination) (scratchSize : Nat) :
    Leads setting Meets (Moment.Knows isUnrolled iteration target 0)
      (Moment.Knows isUnrolled iteration target
        (if destination == .scratch then scratchSize else 0))
      ((destination.clearing scratchSize).map .run)
      ((destination.clearing scratchSize).map .run) [] := by
  cases destination with
  | result position => exact .nil
  | scratch => exact .clearScratch scratchSize

/-- A group function is called at a key, which is set first in a loop. -/
theorem Leads.callAtKey {Meets : PlannedCall → Visit V → Prop}
    {isUnrolled : Bool} {iteration cleared : Nat} {name : String}
    {place : Buffer × Nat} {planned : PlannedCall}
    (key : Expression Symbol)
    (met : ∀ moment : Moment V,
      moment.Knows isUnrolled iteration (some place) cleared →
        Meets planned ⟨name, moment.memory⟩) :
    Leads setting Meets
      (Moment.Knows isUnrolled iteration (some place) cleared)
      (Moment.Knows isUnrolled iteration (some place) 0)
      ((if isUnrolled then [.call name (some key)]
        else [.setKey key, .call name (some (.name .key))]).map .run)
      ((if isUnrolled then [.call name (some key)]
        else [.setKey key, .call name (some (.name .key))]).map .run)
      [planned] := by
  cases isUnrolled with
  | true => exact .call _ met
  | false => exact (Leads.setKey key).append (.call _ met)

namespace GroupCall

variable {isUnrolled : Bool} {iteration loop group : Nat}
  {access : GroupAccess}

theorem exists_suits (tables : List KeyTable) (sparsity : Sparsity)
    (iteration : Nat) {atScratch : Bool} {call : GroupCall}
    (made : make isUnrolled atScratch loop group access = .ok call) :
    call.loop = loop ∧ call.group = group ∧
      (access.start.isNone = true → call.destination = .scratch) ∧
      ∃ place, call.destination.Suits sparsity tables isUnrolled iteration
        atScratch call.setsPointer (.group loop group iteration access)
        place := by
  rw [make, bind_eq_ok_iff] at made
  obtain ⟨key, _, made⟩ := made
  split at made
  · next start placed =>
    cases made
    refine ⟨rfl, rfl, by simp [placed], _, .inPlace placed, ?_, .inl rfl,
      fun equal => Destination.noConfusion (beq_iff_eq.mp equal)⟩
    intro words moment
    simp [Destination.action?, start.value?_current moment]
  · next unplaced =>
    rw [bind_eq_ok_iff] at made
    obtain ⟨copyBack, _, equal⟩ := made
    cases equal
    exact ⟨rfl, rfl, fun _ => rfl, (.scratch, 0),
      Destination.scratch_suits atScratch (.buffered unplaced)⟩

/-- The statements of a group lead to its call at a local iteration. -/
theorem leads (iteration : Nat) {atScratch : Bool} {call : GroupCall}
    (made : make isUnrolled atScratch loop group access = .ok call) :
    Leads setting
      (PlannedCall.IsMetBy options naming sparsity scratchSize)
      (Moment.Knows isUnrolled iteration (knownTarget atScratch) 0)
      (Moment.Knows isUnrolled iteration
        (knownTarget (call.destination == .scratch)) 0)
      ((call.statements options naming scratchSize isUnrolled).map .run)
      ((call.pointing.statements options naming scratchSize isUnrolled).map
        .run)
      [.group loop group iteration access] := by
  obtain ⟨rfl, rfl, buffered, place, suits⟩ :=
    exists_suits setting.tables sparsity iteration made
  let cleared := if call.destination == .scratch then scratchSize else 0
  have met : ∀ moment : Moment V,
      moment.Knows isUnrolled iteration (some place) cleared →
      PlannedCall.IsMetBy options naming sparsity scratchSize
        (.group call.loop call.group iteration access)
        ⟨naming options.modelName call.loop call.group, moment.memory⟩ := by
    intro moment known
    refine ⟨rfl, ⟨place, suits.targets, known.pointer _ rfl⟩, ?_⟩
    intro needed
    have clear := known.clear
    simp only [cleared, buffered needed] at clear
    exact clear
  have rest : ∀ statement ∈
      call.copyBack.toList.map Statement.copyBack ++ [.blank],
      statement.isQuiet = true := by
    intro statement member
    rcases List.mem_append.mp member with copies | blank
    · obtain ⟨_, _, rfl⟩ := List.mem_map.mp copies
      rfl
    · rw [List.mem_singleton.mp blank]
      rfl
  have whole := (((Leads.point suits.lies suits.pointed).append
    (call.destination.clearing_leads scratchSize)).append
      (.callAtKey call.key met)).append (.quiet rest)
  simp only [statements, pointing, List.map_append, List.append_assoc]
    at whole ⊢
  exact whole.weaken (fun _ known => known) fun _ known =>
    known.remember suits.scratch

theorem makeAll_leads (iteration : Nat) {atScratch : Bool}
    {entries : List (Nat × Nat × GroupAccess)} {calls : List GroupCall}
    (made : makeAll isUnrolled atScratch entries = .ok calls) :
    Leads setting
      (PlannedCall.IsMetBy options naming sparsity scratchSize)
      (Moment.Knows isUnrolled iteration (knownTarget atScratch) 0)
      (Moment.Knows isUnrolled iteration
        (knownTarget (Round.endsAtScratch atScratch calls)) 0)
      ((calls.flatMap
        (statements options naming scratchSize isUnrolled)).map .run)
      (((calls.map pointing).flatMap
        (statements options naming scratchSize isUnrolled)).map .run)
      (entries.map fun (loop, group, access) =>
        .group loop group iteration access) := by
  induction entries generalizing atScratch calls with
  | nil =>
    cases made
    exact .nil
  | cons entry rest ih =>
    obtain ⟨loop, group, access⟩ := entry
    obtain ⟨call, others, one, remaining, rfl⟩ :=
      makeAll_cons_eq_ok.mp made
    simp only [List.map_cons, List.flatMap_cons, List.map_append,
      endsAtScratch_cons]
    exact (leads options naming scratchSize iteration one).append
      (ih remaining)

end GroupCall

namespace Round

/-- A loop sets the iteration variable, and nothing is known then of the
pointer. -/
theorem advance_leads (iteration : Nat) {Before : Moment V → Prop} :
    Leads setting
      (PlannedCall.IsMetBy options naming sparsity scratchSize) Before
      (Moment.Knows false iteration (knownTarget false) 0)
      [.advance iteration] [.advance iteration] [] := by
  refine .silent (fun _ => rfl) fun moment next _ acted => ?_
  obtain ⟨actions, ran, _⟩ := setting.act?_eq_some acted
  rw [Step.control?, Option.some.injEq, Prod.mk.injEq] at ran
  refine .of_pointer (.inr ⟨rfl, ?_⟩) fun place absurdly => ?_
  · rw [← ran.1]
  · cases absurdly

/-- A loop that comes to its end sets the iteration variable once more, and
the pointer stays. -/
theorem leave_leads (count iteration : Nat) {target : Option (Buffer × Nat)} :
    Leads setting
      (PlannedCall.IsMetBy options naming sparsity scratchSize)
      (Moment.Knows true iteration target 0) (Moment.Knows true 0 target 0)
      [.advance count] [.advance count] [] := by
  refine .silent (fun _ => rfl) fun moment next known acted => ?_
  obtain ⟨actions, ran, performed⟩ := setting.act?_eq_some acted
  rw [Step.control?, Option.some.injEq, Prod.mk.injEq] at ran
  rw [← ran.2] at performed
  have unchanged : moment.memory = next.memory := Option.some.inj performed
  exact .of_pointer (.inl ⟨rfl, rfl⟩) (unchanged ▸ known.pointer)

/-- One run of a loop body leads to the planned calls of its iteration. -/
theorem turn_leads (iteration : Nat)
    {entries : List (Nat × Nat × GroupAccess)} {calls : List GroupCall}
    (made : GroupCall.makeAll false false entries = .ok calls) :
    Leads setting
      (PlannedCall.IsMetBy options naming sparsity scratchSize)
      (fun _ => True)
      (Moment.Knows true 0 (knownTarget (endsAtScratch false calls)) 0)
      (Step.turn (calls.flatMap
        (GroupCall.statements options naming scratchSize false)) iteration)
      (Step.turn ((calls.map GroupCall.pointing).flatMap
        (GroupCall.statements options naming scratchSize false)) iteration)
      (entries.map fun (loop, group, access) =>
        .group loop group iteration access) :=
  ((advance_leads options naming scratchSize iteration).append
    (GroupCall.makeAll_leads options naming scratchSize iteration
      made)).weaken (fun _ known => known) fun _ known => known.outside

/-- The steps of a round lead to its planned calls. -/
theorem leads {count : Nat} {loops : IndexMap (IndexMap GroupAccess)}
    {atScratch : Bool} {calls : List GroupCall} (runs : 1 ≤ count)
    (made : GroupCall.makeAll (count == 1) (count == 1 && atScratch)
      (accesses loops) = .ok calls) :
    Leads setting
      (PlannedCall.IsMetBy options naming sparsity scratchSize)
      (Moment.Knows true 0 (knownTarget atScratch) 0)
      (Moment.Knows true 0 (knownTarget
        (endsAtScratch (count == 1 && atScratch) calls)) 0)
      ((parts options naming scratchSize ⟨count, calls⟩).flatMap Part.steps)
      ((parts options naming scratchSize (pointing ⟨count, calls⟩)).flatMap
        Part.steps)
      (plannedCalls count loops) := by
  by_cases single : count = 1
  · subst single
    have whole : Leads setting
        (PlannedCall.IsMetBy options naming sparsity scratchSize) _ _ _ _ _ :=
      GroupCall.makeAll_leads options naming scratchSize 0 made
    simp only [parts, pointing, isUnrolled, beq_self_eq_true, if_true,
      Part.steps_map_once, plannedCalls, List.range_one, List.flatMap_singleton,
      Bool.true_and] at whole ⊢
    exact whole
  · have several : (count == 1) = false := by simp [single]
    rw [several, Bool.false_and] at made
    rw [several, Bool.false_and]
    have filled : List.range count ≠ [] := by
      rw [Ne, List.range_eq_nil]
      exact Nat.ne_of_gt runs
    have loop : Leads setting
        (PlannedCall.IsMetBy options naming sparsity scratchSize) _ _ _ _ _ :=
      (Leads.repeated (turn_leads options naming scratchSize · made)
        filled).append (leave_leads options naming scratchSize count 0)
    rw [List.append_nil] at loop
    simp only [parts, pointing, isUnrolled, several, Bool.false_eq_true,
      if_false, List.flatMap_singleton, Part.steps]
    exact loop.weaken (fun _ _ => trivial) fun _ known => known

theorem makeAll_leads {atScratch : Bool}
    {entries : List (Nat × IndexMap (IndexMap GroupAccess))}
    {rounds : List Round} (run : ∀ entry ∈ entries, 1 ≤ entry.1)
    (made : makeAll atScratch entries = .ok rounds) :
    Leads setting
      (PlannedCall.IsMetBy options naming sparsity scratchSize)
      (Moment.Knows true 0 (knownTarget atScratch) 0) (fun _ => True)
      ((rounds.flatMap (parts options naming scratchSize)).flatMap
        Part.steps)
      (((rounds.map pointing).flatMap
        (parts options naming scratchSize)).flatMap Part.steps)
      (entries.flatMap fun (count, loops) => plannedCalls count loops) := by
  induction entries generalizing atScratch rounds with
  | nil =>
    cases made
    exact Leads.nil.weaken (fun _ known => known) fun _ _ => trivial
  | cons entry rest ih =>
    obtain ⟨count, loops⟩ := entry
    obtain ⟨calls, others, one, remaining, rfl⟩ :=
      makeAll_cons_eq_ok.mp made
    simp only [List.map_cons, List.flatMap_cons, List.flatMap_append]
    exact (leads options naming scratchSize (run _ List.mem_cons_self)
      one).append
        (ih (fun other member => run other (List.mem_cons_of_mem _ member))
          remaining)

end Round

end Calls

/-! ## The whole function -/

namespace UsageFunction

variable {V : Type} [AddCommMonoid V] {sparsity : Sparsity}
  {plan : CallPlan} {function : UsageFunction}

theorem preparation_isQuiet (options : Options) (function : UsageFunction) :
    ∀ statement ∈ function.preparation options,
      statement.isQuiet = true := by
  intro statement member
  simp only [preparation, List.mem_append, List.mem_map] at member
  rcases member with (constant | ⟨_, _, rfl⟩) | last
  · rcases List.mem_pair.mp constant with rfl | rfl <;> rfl
  · rfl
  · simp only [List.mem_cons, List.not_mem_nil, or_false] at last
    rcases last with rfl | rfl | rfl <;> rfl

theorem rowStatements_leads (setting : Setting V) (options : Options)
    (naming : GroupNaming) (scratchSize : Nat)
    (within : sparsity.locations.Within (2 ^ 64))
    (made : RowCall.makeAll sparsity false sparsity.rowElements.entries =
      .ok function.rowCalls) :
    Leads setting
      (PlannedCall.IsMetBy options naming sparsity scratchSize)
      (Moment.Knows true 0 (knownTarget false) 0)
      (Moment.Knows true 0
        (knownTarget (RowCall.endsAtScratch false function.rowCalls)) 0)
      ((function.rowStatements options).map .run)
      ((function.pointing.rowStatements options).map .run)
      (sparsity.rowElements.entries.map fun (row, provided) =>
        .row row provided) := by
  have rows : Leads setting
      (PlannedCall.IsMetBy options naming sparsity scratchSize) _ _ _ _ _ :=
    RowCall.makeAll_leads options naming scratchSize within made
  rw [rowStatements, rowStatements]
  by_cases empty : function.rowCalls = []
  · rw [empty] at rows
    simpa [empty, pointing] using rows
  · have filled : function.rowCalls.isEmpty = false := by simp [empty]
    have blank : Leads setting
        (PlannedCall.IsMetBy options naming sparsity scratchSize)
        (Moment.Knows true 0
          (knownTarget (RowCall.endsAtScratch false function.rowCalls)) 0)
        (Moment.Knows true 0
          (knownTarget (RowCall.endsAtScratch false function.rowCalls)) 0)
        ([.blank].map .run) ([.blank].map .run) [] :=
      .quiet (by simp [Statement.isQuiet])
    have whole := rows.append blank
    rw [List.append_nil] at whole
    simpa [filled, pointing, List.isEmpty_map] using whole

/-- A function leads to all planned calls. -/
theorem leads (setting : Setting V) (options : Options)
    (naming : GroupNaming) (within : sparsity.locations.Within (2 ^ 64))
    (run : ∀ entry ∈ plan.entries, 1 ≤ entry.1)
    (made : make sparsity plan = .ok function) :
    Leads setting
      (PlannedCall.IsMetBy options naming sparsity function.scratchSize)
      (fun _ => True) (fun _ => True) (function.steps options naming)
      (function.pointing.steps options naming)
      (sparsity.plannedCalls plan) := by
  obtain ⟨_, _, _, rowsMade, roundsMade⟩ := make_eq_ok made
  have prepared : Leads setting
      (PlannedCall.IsMetBy options naming sparsity function.scratchSize)
      (Moment.Knows true 0 (knownTarget false) 0)
      (Moment.Knows true 0 (knownTarget false) 0)
      ((function.preparation options).map .run)
      ((function.preparation options).map .run) [] :=
    .quiet (preparation_isQuiet options function)
  have last : Leads setting
      (PlannedCall.IsMetBy options naming sparsity function.scratchSize)
      (fun _ => True) (fun _ => True) [.run .blank] [.run .blank] [] :=
    .silent (fun _ => rfl) fun _ _ _ _ => trivial
  have whole := ((prepared.append (rowStatements_leads setting options naming
    function.scratchSize within rowsMade)).append
      (Round.makeAll_leads options naming function.scratchSize run
        roundsMade)).append last
  simp only [List.nil_append, List.append_nil] at whole
  simp only [steps, parts, List.flatMap_append, Part.steps_map_once,
    List.map_append, List.flatMap_singleton, Sparsity.plannedCalls]
  exact whole.weaken (fun moment _ => .nothing moment) fun _ known => known

/-- In every run of a generated function, up to its end or to where it gets
stuck, the calls are the planned ones in their order.  At each of them the
output pointer is at the target of the call, and the scratch buffer is clear
for each group that writes there.  A function that sets the pointer before
every call runs in the same way. -/
theorem pointer_right_at_calls (setting : Setting V)
    (before : Nat → Option V) (options : Options) (naming : GroupNaming)
    {text : String} (within : sparsity.locations.Within (2 ^ 64))
    (repeats : ∀ count loops, plan.get? count = some loops → 1 ≤ count)
    (generated : generate options sparsity plan naming = .ok text) :
    ∃ function, make sparsity plan = .ok function ∧
      text = function.text options naming ∧
      function.text options naming =
        textOfLines (function.lines options naming) ∧
      (∃ front, front <+: sparsity.plannedCalls plan ∧
        List.Forall₂
          (PlannedCall.IsMetBy options naming sparsity function.scratchSize)
          front
          (setting.visits (function.start before)
            (function.steps options naming))) ∧
      (∀ last, setting.actAll? (function.start before)
          (function.steps options naming) = some last →
        List.Forall₂
          (PlannedCall.IsMetBy options naming sparsity function.scratchSize)
          (sparsity.plannedCalls plan)
          (setting.visits (function.start before)
            (function.steps options naming))) ∧
      setting.actAll? (function.start before)
          (function.pointing.steps options naming) =
        setting.actAll? (function.start before)
          (function.steps options naming) := by
  obtain ⟨function, made, written⟩ := generate_eq_ok generated
  have run : ∀ entry ∈ plan.entries, 1 ≤ entry.1 := fun entry member =>
    repeats entry.1 entry.2 (IndexMap.get?_eq_some_iff.mpr member)
  have whole := leads setting options naming within run made
  exact ⟨function, made, written, text_eq options naming function,
    whole.reaches _ trivial,
    fun last ran => (whole.completes _ last trivial ran).1,
    whole.alike _ trivial⟩

/-- Two rows and three groups, all of which write to the scratch buffer. -/
def scattered : Sparsity where
  loopGroups := IndexMap.ofList
    [ (0, IndexMap.ofList
        [(0, IndexMap.ofList [(0, IndexSet.ofList [0])])]),
      (1, IndexMap.ofList
        [ (0, IndexMap.ofList
            [(0, IndexSet.ofList [0]), (1, IndexSet.ofList [0])]),
          (1, IndexMap.ofList
            [(0, IndexSet.ofList [0]), (1, IndexSet.ofList [0])]) ]) ]
  rowElements := IndexMap.ofList
    [(0, IndexSet.ofList [0]), (1, IndexSet.ofList [0])]
  locations := IndexMap.ofList
    [(0, [IndexSet.ofList [0]]), (1, [IndexSet.ofList [1]])]
  ordered := IndexMap.ofList [(0, false), (1, false)]
  entryCount := 2

/-- Functions that provide one for element zero. -/
def oneLibrary : Library Int where
  rows _ _ := [(0, 1)]
  keys _ _ _ := [(0, 1)]

/-- The function of the scattered description makes seven calls and sets the
pointer before three of them, and each call finds the pointer at the scratch
buffer. -/
theorem scattered_pointer :
    ∃ plan text function,
      scattered.callPlan Detector.affine = .ok plan ∧
      generate {} scattered plan GroupNaming.short = .ok text ∧
      make scattered plan = .ok function ∧
      (scattered.plannedCalls plan).length = 7 ∧
      ((function.steps {} GroupNaming.short).filter
        (· == .run (.point .scratch))).length = 3 ∧
      List.Forall₂ (PlannedCall.IsMetBy {} GroupNaming.short scattered
          function.scratchSize) (scattered.plannedCalls plan)
        ((function.setting oneLibrary {}).visits
          (function.start fun _ => none)
          (function.steps {} GroupNaming.short)) := by
  have checked : (do
      let plan ← scattered.callPlan Detector.affine
      let function ← make scattered plan
      let _ ← generate {} scattered plan GroupNaming.short
      pure (decide ((∀ entry ∈ plan.entries, 1 ≤ entry.1) ∧
        (scattered.plannedCalls plan).length = 7 ∧
        ((function.steps {} GroupNaming.short).filter
          (· == .run (.point .scratch))).length = 3 ∧
        ((function.setting oneLibrary {}).actAll?
          (function.start fun _ => none)
          (function.steps {} GroupNaming.short)).isSome = true))) =
      (.ok true : Except Failure Bool) :=
    rfl
  obtain ⟨plan, function, text, planned, made, written, facts⟩ :=
    exists_of_checked checked
  obtain ⟨repeats, calls, points, ends⟩ := of_decide_eq_true facts
  obtain ⟨last, ran⟩ := Option.isSome_iff_exists.mp ends
  obtain ⟨same, again, _, _, _, completes, _⟩ :=
    pointer_right_at_calls (function.setting oneLibrary {}) (fun _ => none)
      {} GroupNaming.short (Locations.within_of_entries (by decide))
      (fun count loops found =>
        repeats (count, loops) (IndexMap.get?_eq_some_iff.mp found)) written
  rw [made] at again
  cases again
  exact ⟨plan, text, function, planned, written, made, calls, points,
    completes last ran⟩

end UsageFunction

end SparseLoop
