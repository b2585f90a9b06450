import SparseLoop.Proofs.Routine.Invocation

/-!
# The invocations of a whole run

A run of a usage function prepares the inputs and the result and then makes one
invocation for each row with a function and one for each key of each group.
The order is that of the plan: rounds by their number of keys, in a round the
local iterations, and in an iteration the groups.  Up to this order the keys
are those of the description.

A call does not set the output pointer while it is known to point to the
scratch buffer.  `Pointed` says that each invocation of a run sets the pointer
or finds it there, and this is kept where runs are put together.
-/

namespace SparseLoop

open Traversal

/-! ## The output pointer -/

namespace Invocation

/-- Whether the pointer points to the scratch buffer after some
invocations. -/
def endsAtScratch : Bool → List Invocation → Bool
  | atScratch, [] => atScratch
  | _, first :: rest => endsAtScratch first.place.isNone rest

/-- Each invocation sets the pointer or finds it where it writes. -/
def Pointed : Bool → List Invocation → Prop
  | _, [] => True
  | atScratch, first :: rest =>
    first.IsPointed atScratch ∧ Pointed first.place.isNone rest

variable {atScratch : Bool} {first second : List Invocation}

theorem endsAtScratch_append (atScratch : Bool)
    (first second : List Invocation) :
    endsAtScratch atScratch (first ++ second) =
      endsAtScratch (endsAtScratch atScratch first) second := by
  induction first generalizing atScratch with
  | nil => rfl
  | cons _ _ ih => exact ih _

theorem pointed_append :
    Pointed atScratch (first ++ second) ↔
      Pointed atScratch first ∧
        Pointed (endsAtScratch atScratch first) second := by
  induction first generalizing atScratch with
  | nil => simp [Pointed, endsAtScratch]
  | cons invocation rest ih =>
    simp only [List.cons_append, Pointed, endsAtScratch, ih, and_assoc]

/-- Knowing more about the pointer does no harm. -/
theorem Pointed.mono {known : Bool} (pointed : Pointed known first)
    (more : known = true → atScratch = true) : Pointed atScratch first := by
  cases first with
  | nil => trivial
  | cons invocation rest =>
    exact ⟨pointed.1.imp_right fun found => ⟨more found.1, found.2⟩,
      pointed.2⟩

theorem endsAtScratch_mono {known : Bool}
    (more : known = true → atScratch = true)
    (ends : endsAtScratch known first = true) :
    endsAtScratch atScratch first = true := by
  cases first with
  | nil => exact more ends
  | cons _ _ => exact ends

end Invocation

/-! ## The calls of row functions -/

namespace RowCall

variable {sparsity : Sparsity}

/-- Whether the output pointer is known to point to the scratch buffer after
some calls. -/
def endsAtScratch (atScratch : Bool) (calls : List RowCall) : Bool :=
  match calls.getLast? with
  | none => atScratch
  | some call => call.destination == .scratch

theorem endsAtScratch_cons (atScratch : Bool) (call : RowCall)
    (rest : List RowCall) :
    endsAtScratch atScratch (call :: rest) =
      endsAtScratch (call.destination == .scratch) rest := by
  rw [endsAtScratch, endsAtScratch, List.getLast?_cons]
  cases rest.getLast? <;> rfl

/-- The call of the first row is made, and then those of the others. -/
theorem makeAll_cons_eq_ok {atScratch : Bool} {row : Nat}
    {provided : IndexSet} {rest : List (Nat × IndexSet)}
    {calls : List RowCall} :
    makeAll sparsity atScratch ((row, provided) :: rest) = .ok calls ↔
      ∃ call others, make sparsity atScratch row provided = .ok call ∧
        makeAll sparsity (call.destination == .scratch) rest = .ok others ∧
        calls = call :: others := by
  simp only [makeAll, bind_eq_ok_iff, pure, Except.pure, Except.ok.injEq,
    eq_comm (a := calls), exists_and_left]

/-- Made calls of row functions run as one invocation each. -/
theorem makeAll_runs (options : Options) (tables : List KeyTable)
    (words : Words) {scratchSize : Nat}
    (within : sparsity.locations.Within (2 ^ 64))
    {atScratch : Bool} {entries : List (Nat × IndexSet)}
    {calls : List RowCall}
    (wide : ∀ entry ∈ entries, sparsity.isOrdered entry.1 = .ok false →
      sparsity.locations.WidthWithin entry.1 scratchSize)
    (made : makeAll sparsity atScratch entries = .ok calls) :
    ∃ invocations : List Invocation,
      Runs (Statement.control? tables) words
        (calls.flatMap (RowCall.statements options)) words
        (invocations.flatMap Invocation.actions) ∧
      List.Forall₂ (fun (entry : Nat × IndexSet) (invocation : Invocation) =>
        invocation.OfRow options sparsity scratchSize entry.1 entry.2)
        entries invocations ∧
      Invocation.Pointed atScratch invocations ∧
      endsAtScratch atScratch calls =
        Invocation.endsAtScratch atScratch invocations := by
  induction entries generalizing atScratch calls with
  | nil =>
    cases made
    exact ⟨[], Runs.nil words, .nil, trivial, rfl⟩
  | cons entry rest ih =>
    obtain ⟨row, provided⟩ := entry
    obtain ⟨call, others, one, remaining, rfl⟩ :=
      makeAll_cons_eq_ok.mp made
    obtain ⟨invocation, runs, ofRow, pointed, place⟩ :=
      make_runs options within (wide _ List.mem_cons_self) one
    obtain ⟨invocations, later, ofRows, allPointed, ends⟩ :=
      ih (fun other member => wide other (List.mem_cons_of_mem _ member))
        remaining
    refine ⟨invocation :: invocations, runs.append later,
      .cons ofRow ofRows, ⟨pointed, place ▸ allPointed⟩, ?_⟩
    rw [endsAtScratch_cons, ends, place]
    rfl

end RowCall

/-! ## The calls of group functions -/

theorem flatMap_getElem?_self {α : Type} (values : List α) :
    (List.range values.length).flatMap
      (fun position => values[position]?.toList) = values := by
  induction values with
  | nil => rfl
  | cons first rest ih =>
    rw [List.length_cons, List.range_succ_eq_map, List.flatMap_cons,
      List.flatMap_map]
    exact congrArg (first :: ·) ih

/-- The lists that hold the answers of equally long lists at each position in
turn are together the lists themselves. -/
theorem flatMap_getElem?_perm {α β : Type} {count : Nat}
    (row : α → List β) {sources : List α}
    (alike : ∀ source ∈ sources, (row source).length = count) :
    ((List.range count).flatMap fun position =>
        sources.flatMap fun source => (row source)[position]?.toList).Perm
      (sources.flatMap row) := by
  induction sources with
  | nil => simp
  | cons source rest ih =>
    have whole := flatMap_getElem?_self (row source)
    rw [alike source List.mem_cons_self] at whole
    simp only [List.flatMap_cons]
    refine (List.flatMap_append_perm _ _ _).symm.trans ?_
    rw [whole]
    exact (ih fun other member =>
      alike other (List.mem_cons_of_mem _ member)).append_left _

/-- What a plan says about a group: its place and its access.  The keys of the
group are in a table if they have to be, and what they provide fits into the
scratch buffer if it goes there. -/
structure LoopGroup.Planned (group : LoopGroup) (sparsity : Sparsity)
    (tables : List KeyTable) (scratchSize count : Nat)
    (entry : Nat × Nat × GroupAccess) : Prop where
  member : group ∈ sparsity.groups
  atLoop : entry.1 = group.loop
  atGroup : entry.2.1 = group.group
  serves : entry.2.2.Serves group.elements sparsity.locations
  flagged : ∀ start, entry.2.2.start = some start →
    group.AllFlagged sparsity
  counted : entry.2.2.keys.length = count
  small : ∀ key ∈ entry.2.2.keys, key < 2 ^ 64
  wide : entry.2.2.start = none → ∀ key ∈ entry.2.2.keys,
    sparsity.locations.WidthWithin key scratchSize
  tabled : 1 < count → entry.2.2.keyPattern = none →
    KeyTable.entries? tables group.loop group.group = some entry.2.2.keys

theorem LoopGroup.Planned.length_groupKeys {group : LoopGroup}
    {sparsity : Sparsity} {tables : List KeyTable} {scratchSize count : Nat}
    {entry : Nat × Nat × GroupAccess}
    (planned : group.Planned sparsity tables scratchSize count entry) :
    group.groupKeys.length = count := by
  rw [← planned.counted, planned.serves.keys, groupKeys, IndexMap.keyList,
    List.length_map, List.length_map]

/-- A planned group has a key at every local iteration of its round. -/
theorem LoopGroup.Planned.exists_entry {group : LoopGroup}
    {sparsity : Sparsity} {tables : List KeyTable} {scratchSize count : Nat}
    {entry : Nat × Nat × GroupAccess}
    (planned : group.Planned sparsity tables scratchSize count entry)
    {iteration : Nat} (inside : iteration < count) :
    ∃ key provided,
      group.elements.entries[iteration]? = some (key, provided) := by
  have length := planned.length_groupKeys
  rw [groupKeys, List.length_map] at length
  exact ⟨_, _, List.getElem?_eq_getElem (length ▸ inside)⟩

/-- A planned group can be called at every local iteration of its round. -/
theorem LoopGroup.Planned.ready {group : LoopGroup}
    {sparsity : Sparsity} {tables : List KeyTable} {scratchSize count : Nat}
    {entry : Nat × Nat × GroupAccess}
    (planned : group.Planned sparsity tables scratchSize count entry)
    {words : Words} {isUnrolled : Bool} {iteration : Nat}
    (unrolled : isUnrolled = (count == 1))
    (moment : words.IsAt isUnrolled iteration) :
    GroupCall.Ready tables words isUnrolled group.loop group.group iteration
      entry.2.2 := by
  refine ⟨moment, fun once => ?_, fun repeated patternless => ?_⟩
  · rw [planned.counted]
    exact beq_iff_eq.mp (unrolled ▸ once)
  · refine planned.tabled ?_ patternless
    have several : count ≠ 1 := fun single => by
      rw [unrolled, single] at repeated
      cases repeated
    have inhabited : entry.2.2.keys.length ≠ 0 :=
      fun empty => planned.serves.inhabited (List.length_eq_zero_iff.mp empty)
    rw [planned.counted] at inhabited
    omega

namespace GroupCall

/-- Whether the output pointer is known to point to the scratch buffer after
some calls, by the first of them. -/
theorem endsAtScratch_cons (atScratch : Bool) (call : GroupCall)
    (rest : List GroupCall) :
    Round.endsAtScratch atScratch (call :: rest) =
      Round.endsAtScratch (call.destination == .scratch) rest := by
  rw [Round.endsAtScratch, Round.endsAtScratch, List.getLast?_cons]
  cases rest.getLast? <;> rfl

variable {sparsity : Sparsity} {tables : List KeyTable}
  {isUnrolled atScratch : Bool} {iteration count : Nat}
  {sources : List LoopGroup} {entries : List (Nat × Nat × GroupAccess)}
  {calls : List GroupCall}

/-- The call of the first group is made, and then those of the others. -/
theorem makeAll_cons_eq_ok {loop group : Nat} {access : GroupAccess}
    {rest : List (Nat × Nat × GroupAccess)} :
    makeAll isUnrolled atScratch ((loop, group, access) :: rest) =
        .ok calls ↔
      ∃ call others,
        make isUnrolled atScratch loop group access = .ok call ∧
        makeAll isUnrolled (call.destination == .scratch) rest =
          .ok others ∧
        calls = call :: others := by
  simp only [makeAll, bind_eq_ok_iff, pure, Except.pure, Except.ok.injEq,
    eq_comm (a := calls), exists_and_left]

/-- Made calls of group functions run, at a local iteration, as one invocation
each: that of the group's key at the iteration. -/
theorem makeAll_runs (options : Options) (naming : GroupNaming)
    (scratchSize : Nat) (words : Words)
    (within : sparsity.locations.Within (2 ^ 64))
    (planned : List.Forall₂ (fun (source : LoopGroup) entry =>
      source.Planned sparsity tables scratchSize count entry) sources entries)
    (unrolled : isUnrolled = (count == 1)) (inside : iteration < count)
    (moment : words.IsAt isUnrolled iteration)
    (made : makeAll isUnrolled atScratch entries = .ok calls) :
    ∃ (invocations : List Invocation) (later : Words),
      Runs (Statement.control? tables) words
        (calls.flatMap (statements options naming scratchSize isUnrolled))
        later (invocations.flatMap Invocation.actions) ∧
      later.iteration = words.iteration ∧
      List.Forall₂ (fun served (invocation : Invocation) =>
        invocation.OfKey options naming sparsity scratchSize served)
        (sources.flatMap fun source => source.groupKeys[iteration]?.toList)
        invocations ∧
      Invocation.Pointed atScratch invocations ∧
      Round.endsAtScratch atScratch calls =
        Invocation.endsAtScratch atScratch invocations := by
  induction planned generalizing words atScratch calls with
  | nil =>
    cases made
    exact ⟨[], words, Runs.nil words, rfl, .nil, trivial, rfl⟩
  | @cons source entry _ _ first _ ih =>
    obtain ⟨loop, group, access⟩ := entry
    obtain rfl : loop = source.loop := first.atLoop
    obtain rfl : group = source.group := first.atGroup
    obtain ⟨call, others, one, remaining, rfl⟩ :=
      makeAll_cons_eq_ok.mp made
    obtain ⟨key, provided, stored⟩ := first.exists_entry inside
    obtain ⟨invocation, middle, run, same, ofKey, pointed, place⟩ :=
      make_runs options naming scratchSize within first.serves first.small
        first.wide stored (fun start placed => ⟨source, first.member,
          first.flagged start placed, IndexMap.get?_eq_some_iff.mpr
            (List.mem_of_getElem? stored)⟩)
        (first.ready unrolled moment) one
    obtain ⟨invocations, later, runs, kept, ofKeys, allPointed, ends⟩ :=
      ih middle (by rw [Words.IsAt, same]; exact moment) remaining
    refine ⟨invocation :: invocations, later, run.append runs,
      kept.trans same, ?_, ⟨pointed, place ▸ allPointed⟩, ?_⟩
    · have here : source.groupKeys[iteration]? =
          some ⟨source.loop, source.group, key, provided⟩ := by
        rw [LoopGroup.groupKeys, List.getElem?_map, stored, Option.map_some]
      rw [List.flatMap_cons, here]
      exact .cons ofKey ofKeys
    · rw [endsAtScratch_cons, ends, place]
      rfl

end GroupCall

/-! ## Rounds -/

namespace Round

variable {sparsity : Sparsity} {tables : List KeyTable}
  {atScratch : Bool} {count : Nat} {sources : List LoopGroup}
  {entries : List (Nat × Nat × GroupAccess)} {calls : List GroupCall}

/-- The keys that a round serves, by local iterations. -/
def servedKeys (sources : List LoopGroup) (iterations : List Nat) :
    List GroupKey :=
  iterations.flatMap fun iteration =>
    sources.flatMap fun source => source.groupKeys[iteration]?.toList

/-- A counted loop makes the invocations of its iterations. -/
theorem runs_iterations (options : Options) (naming : GroupNaming)
    (scratchSize : Nat) (words : Words)
    (within : sparsity.locations.Within (2 ^ 64))
    (planned : List.Forall₂ (fun (source : LoopGroup) entry =>
      source.Planned sparsity tables scratchSize count entry) sources entries)
    (repeated : (count == 1) = false)
    (made : GroupCall.makeAll false false entries = .ok calls)
    (atScratch : Bool) (iterations : List Nat)
    (inside : ∀ iteration ∈ iterations, iteration < count) :
    ∃ (invocations : List Invocation) (later : Words),
      Runs (Part.iterate? tables (calls.flatMap
        (GroupCall.statements options naming scratchSize false))) words
        iterations later (invocations.flatMap Invocation.actions) ∧
      List.Forall₂ (fun served (invocation : Invocation) =>
        invocation.OfKey options naming sparsity scratchSize served)
        (servedKeys sources iterations) invocations ∧
      Invocation.Pointed atScratch invocations ∧
      (iterations ≠ [] → endsAtScratch false calls = true →
        Invocation.endsAtScratch atScratch invocations = true) := by
  induction iterations generalizing words atScratch with
  | nil =>
    exact ⟨[], words, Runs.nil words, .nil, trivial,
      fun filled => absurd rfl filled⟩
  | cons iteration rest ih =>
    obtain ⟨first, middle, run, _, ofKey, pointed, ends⟩ :=
      GroupCall.makeAll_runs
        options naming scratchSize
        { words with iteration := some (UInt64.ofNat iteration) }
        within planned repeated.symm (inside iteration List.mem_cons_self)
        (.inr ⟨rfl, rfl⟩) made
    obtain ⟨others, later, runs, ofKeys, allPointed, ended⟩ :=
      ih middle (Invocation.endsAtScratch atScratch first)
        fun other member => inside other (List.mem_cons_of_mem _ member)
    have anyway : Invocation.Pointed atScratch first :=
      pointed.mono fun unknown => absurd unknown Bool.false_ne_true
    refine ⟨first ++ others, later, ?_, ?_,
      Invocation.pointed_append.mpr ⟨anyway, allPointed⟩, ?_⟩
    · rw [List.flatMap_append]
      exact Runs.cons run runs
    · rw [servedKeys, List.flatMap_cons]
      exact List.rel_append ofKey ofKeys
    · intro _ known
      rw [Invocation.endsAtScratch_append]
      by_cases last : rest = []
      · subst last
        cases ofKeys
        rw [ends] at known
        show Invocation.endsAtScratch atScratch first = true
        exact Invocation.endsAtScratch_mono
          (fun unknown => absurd unknown Bool.false_ne_true) known
      · exact ended last known

/-- A made round runs as one invocation for each key of its groups. -/
theorem make_runs (options : Options) (naming : GroupNaming)
    (scratchSize : Nat) (words : Words)
    (within : sparsity.locations.Within (2 ^ 64))
    (planned : List.Forall₂ (fun (source : LoopGroup) entry =>
      source.Planned sparsity tables scratchSize count entry) sources entries)
    (made : GroupCall.makeAll (count == 1) (count == 1 && atScratch)
      entries = .ok calls) :
    ∃ (invocations : List Invocation) (later : Words),
      Runs (Part.control? tables) words
        (parts options naming scratchSize { count, calls }) later
        (invocations.flatMap Invocation.actions) ∧
      List.Forall₂ (fun served (invocation : Invocation) =>
        invocation.OfKey options naming sparsity scratchSize served)
        (servedKeys sources (List.range count)) invocations ∧
      Invocation.Pointed atScratch invocations ∧
      (endsAtScratch (count == 1 && atScratch) calls = true →
        Invocation.endsAtScratch atScratch invocations = true) := by
  cases unrolled : count == 1 with
  | true =>
    obtain rfl : count = 1 := beq_iff_eq.mp unrolled
    obtain ⟨invocations, later, run, _, ofKeys, pointed, ends⟩ :=
      GroupCall.makeAll_runs options naming scratchSize words within planned
        rfl Nat.one_pos (.inl ⟨rfl, rfl⟩) made
    refine ⟨invocations, later, Part.runs_map_once run, ?_, pointed,
      fun known => ends ▸ known⟩
    rw [servedKeys, List.range_one, List.flatMap_singleton]
    exact ofKeys
  | false =>
    rw [unrolled, Bool.false_and] at made
    obtain ⟨invocations, later, run, ofKeys, pointed, ends⟩ :=
      runs_iterations options naming scratchSize words within
        planned unrolled made atScratch (List.range count)
        fun iteration member => List.mem_range.mp member
    refine ⟨invocations,
      { later with iteration := some (UInt64.ofNat count) }, ?_, ofKeys,
      pointed, ?_⟩
    · have shape : parts options naming scratchSize { count, calls } =
          [.counted count (calls.flatMap
            (GroupCall.statements options naming scratchSize false))] := by
        rw [parts, isUnrolled, unrolled]
        rfl
      rw [shape]
      refine Runs.single ?_
      rw [Part.control?, run]
      rfl
    · intro known
      refine ends ?_ known
      cases planned with
      | nil =>
        cases made
        cases known
      | cons first _ =>
        intro empty
        have none := first.counted
        rw [List.range_eq_nil.mp empty, List.length_eq_zero_iff] at none
        exact first.serves.inhabited none

/-- The accesses of the groups that have one number of keys. -/
def accesses (loops : IndexMap (IndexMap GroupAccess)) :
    List (Nat × Nat × GroupAccess) :=
  loops.entries.flatMap fun (loop, groups) =>
    groups.entries.map fun (group, access) => (loop, group, access)

theorem calls_eq (plan : CallPlan) :
    plan.calls = plan.entries.flatMap fun (count, loops) =>
      (accesses loops).map fun entry => (count, entry) := by
  rw [CallPlan.calls]
  refine List.flatMap_congr fun entry _ => ?_
  simp only [accesses, List.map_flatMap, List.map_map]
  rfl

/-- The calls of the first round are made, and then the other rounds. -/
theorem makeAll_cons_eq_ok {loops : IndexMap (IndexMap GroupAccess)}
    {rest : List (Nat × IndexMap (IndexMap GroupAccess))}
    {rounds : List Round} :
    makeAll atScratch ((count, loops) :: rest) = .ok rounds ↔
      ∃ calls others,
        GroupCall.makeAll (count == 1) (count == 1 && atScratch)
          (accesses loops) = .ok calls ∧
        makeAll (endsAtScratch (count == 1 && atScratch) calls) rest =
          .ok others ∧
        rounds = { count, calls } :: others := by
  simp only [makeAll, accesses, bind_eq_ok_iff, pure, Except.pure,
    Except.ok.injEq, eq_comm (a := rounds), exists_and_left]

/-- Made rounds run as one invocation for each key of their groups. -/
theorem makeAll_runs (options : Options) (naming : GroupNaming)
    (scratchSize : Nat) (words : Words)
    (within : sparsity.locations.Within (2 ^ 64))
    {entries : List (Nat × IndexMap (IndexMap GroupAccess))}
    {rounds : List Round} {known : Bool}
    (planned : ∀ round ∈ entries, ∃ sources : List LoopGroup,
      List.Forall₂ (fun (source : LoopGroup) entry =>
        source.Planned sparsity tables scratchSize round.1 entry)
        sources (accesses round.2))
    (made : makeAll known entries = .ok rounds)
    (sound : known = true → atScratch = true) :
    ∃ (sources : List LoopGroup) (served : List GroupKey)
      (invocations : List Invocation) (later : Words),
      List.Forall₂ (fun (source : LoopGroup) call =>
        source.Planned sparsity tables scratchSize call.1 call.2) sources
        (entries.flatMap fun (count, loops) =>
          (accesses loops).map fun entry => (count, entry)) ∧
      served.Perm (sources.flatMap LoopGroup.groupKeys) ∧
      Runs (Part.control? tables) words
        (rounds.flatMap (parts options naming scratchSize)) later
        (invocations.flatMap Invocation.actions) ∧
      List.Forall₂ (fun served (invocation : Invocation) =>
        invocation.OfKey options naming sparsity scratchSize served)
        served invocations ∧
      Invocation.Pointed atScratch invocations := by
  induction entries generalizing words known atScratch rounds with
  | nil =>
    cases made
    exact ⟨[], [], [], words, .nil, .nil, Runs.nil words, .nil, trivial⟩
  | cons entry rest ih =>
    obtain ⟨count, loops⟩ := entry
    obtain ⟨calls, others, one, remaining, rfl⟩ :=
      makeAll_cons_eq_ok.mp made
    obtain ⟨sources, related⟩ := planned _ List.mem_cons_self
    obtain ⟨first, middle, run, ofKeys, pointed, ends⟩ :=
      make_runs options naming scratchSize words within related one
    obtain ⟨more, served, later, last, moreRelated, permuted, runs,
      laterOfKeys, laterPointed⟩ :=
      ih middle (fun round member =>
        planned round (List.mem_cons_of_mem _ member)) remaining ends
    refine ⟨sources ++ more,
      servedKeys sources (List.range count) ++ served, first ++ later, last,
      ?_, ?_, ?_, List.rel_append ofKeys laterOfKeys, ?_⟩
    · rw [List.flatMap_cons]
      refine List.rel_append ?_ moreRelated
      rw [List.forall₂_map_right_iff]
      exact related
    · rw [List.flatMap_append]
      refine List.Perm.append ?_ permuted
      refine flatMap_getElem?_perm LoopGroup.groupKeys ?_
      intro source member
      obtain ⟨_, _, shown⟩ := exists_right_of_mem related member
      exact shown.length_groupKeys
    · rw [List.flatMap_append]
      exact run.append runs
    · rw [Invocation.pointed_append]
      exact ⟨pointed.mono sound, laterPointed.mono
        (Invocation.endsAtScratch_mono sound)⟩

end Round

end SparseLoop
