import SparseLoop.Proofs.Execution.Correctness
import SparseLoop.Proofs.Routine.Dispatch
import SparseLoop.Proofs.Routine.Generation

/-!
# Declaration and use of the scratch buffer

Whether the scratch buffer is declared and whether it is mentioned are decided
apart from each other.  It is declared if the widest array that goes through it
has an element.  It is mentioned if there is such an array at all: a row that is
not ordered, or a key of a group that does not write in place.

The two answers differ where all these arrays are without elements.  Then the
pointer is set to a buffer that does not exist, and no element is copied from
there: a copy is made for recorded positions only.
-/

namespace SparseLoop

open Traversal

/-! ## Arrays in the scratch buffer -/

/-- A row or key has recorded elements. -/
def Locations.HasElements (locations : Locations) (key : Nat) : Prop :=
  ∃ positions, locations.get? key = some positions ∧ positions ≠ []

namespace CallPlan

variable {plan : CallPlan} {sparsity : Sparsity} {size : Nat}

/-- The array of a row or key reaches the result through the scratch buffer. -/
inductive Buffers (plan : CallPlan) (sparsity : Sparsity) : Nat → Prop
  | row {row : Nat} (listed : row ∈ sparsity.rowElements.keyList)
      (unordered : sparsity.isOrdered row = .ok false) :
      Buffers plan sparsity row
  | key {count loop group key : Nat} {access : GroupAccess}
      (planned : (count, loop, group, access) ∈ plan.calls)
      (unplaced : access.start = none) (listed : key ∈ access.keys) :
      Buffers plan sparsity key

theorem hasElements_of_width {key width : Nat}
    (measured : CallPlan.width sparsity key = .ok width) (wide : 0 < width) :
    sparsity.locations.HasElements key := by
  obtain ⟨positions, found, rfl⟩ := map_eq_ok_iff.mp measured
  exact ⟨positions, Locations.find_eq_ok_iff.mp found,
    List.ne_nil_of_length_pos wide⟩

theorem pos_foldl_max {widths : List Nat} {least : Nat}
    (wide : 0 < widths.foldl max least) :
    0 < least ∨ ∃ width ∈ widths, 0 < width := by
  induction widths generalizing least with
  | nil => exact .inl wide
  | cons first rest ih =>
    rcases ih wide with here | ⟨width, later, positive⟩
    · have either : 0 < least ∨ 0 < first := by omega
      rcases either with before | now
      · exact .inl before
      · exact .inr ⟨first, List.mem_cons_self, now⟩
    · exact .inr ⟨width, List.mem_cons_of_mem _ later, positive⟩

/-- There is a scratch buffer exactly if an array with elements goes through
it. -/
theorem scratchSize_pos_iff (sized : plan.scratchSize sparsity = .ok size) :
    0 < size ↔ ∃ key, plan.Buffers sparsity key ∧
      sparsity.locations.HasElements key := by
  obtain ⟨rowsWithin, keysWithin⟩ := widthWithin_scratchSize sized
  constructor
  · intro positive
    obtain ⟨widths, rfl, among⟩ := scratchSize_eq_ok sized
    obtain ⟨width, member, wide⟩ :=
      (pos_foldl_max positive).resolve_left (Nat.lt_irrefl 0)
    rcases (among width).mp member with
      ⟨row, listed, ⟨_, rfl⟩ | ⟨flagged, measured⟩⟩ |
        ⟨count, loop, group, access, planned, unplaced, key, listed, measured⟩
    · exact absurd wide (Nat.lt_irrefl 0)
    · exact ⟨row, .row listed flagged, hasElements_of_width measured wide⟩
    · exact ⟨key, .key planned unplaced listed,
        hasElements_of_width measured wide⟩
  · rintro ⟨key, buffers, positions, found, inhabited⟩
    refine Nat.lt_of_lt_of_le (List.length_pos_of_ne_nil inhabited) ?_
    cases buffers with
    | row listed unordered =>
      exact rowsWithin key listed unordered positions found
    | key planned unplaced listed =>
      exact keysWithin _ _ _ _ planned unplaced key listed positions found

end CallPlan

/-! ## Copies of a statement -/

/-- All copies of a bucket, whichever sections run. -/
def BucketCopies.all (copies : BucketCopies) : List Copy :=
  copies.direct ++ copies.sectioned.flatMap fun chain => chain.bodies.flatten

/-- The copies that a statement can make. -/
def Statement.copies : Statement → List Copy
  | add copy => [copy]
  | copyBack chain => chain.bodies.flatMap BucketCopies.all
  | _ => []

/-- A bucket without elements has nothing to copy. -/
theorem BucketCopies.all_of_no_elements {isUnrolled : Bool} {lastKey : Nat}
    {bucket : ElementBucket} {copies : BucketCopies}
    (made : ofBucket isUnrolled lastKey bucket = .ok copies)
    (none : bucket.elements = []) : copies.all = [] := by
  rw [ofBucket, none] at made
  cases made
  rfl

/-- Each branch after a call makes the copies of a bucket. -/
theorem GroupAccess.exists_bucket {access : GroupAccess} {isUnrolled : Bool}
    {chain : Chain BucketCopies}
    (made : access.copyBack isUnrolled = .ok (some chain))
    {copies : BucketCopies} (member : copies ∈ chain.bodies) :
    ∃ bucket ∈ access.buckets.values, ∃ lastKey,
      BucketCopies.ofBucket isUnrolled lastKey bucket = .ok copies := by
  rw [copyBack] at made
  split at made
  · cases made
  · next lastKey _ =>
    split at made
    · cases made
    · rw [bind_eq_ok_iff] at made
      obtain ⟨branches, visited, made⟩ := made
      obtain ⟨_, chained, equal⟩ := map_eq_ok_iff.mp made
      cases equal
      rw [(Chain.bodies_ofBranches chained).1] at member
      obtain ⟨branch, among, rfl⟩ := List.mem_map.mp member
      obtain ⟨bucket, listed, one⟩ := (mem_of_mapM_eq_ok visited).mp among
      obtain ⟨copies, copied, equal⟩ := bind_eq_ok_iff.mp one
      cases equal
      exact ⟨bucket, listed, lastKey, copied⟩

/-! ## Rows -/

namespace RowCall

variable {sparsity : Sparsity} {atScratch : Bool} {row : Nat}
  {provided : IndexSet} {call : RowCall} {entries : List (Nat × IndexSet)}
  {calls : List RowCall}

/-- The two ways in which a row is called. -/
theorem make_ways (made : make sparsity atScratch row provided = .ok call) :
    (sparsity.isOrdered row = .ok true ∧
      (∃ start : Nat, call.destination = .result (.number start)) ∧
      call.copies = []) ∨
    (sparsity.isOrdered row = .ok false ∧ call.destination = .scratch ∧
      call.setsPointer = !atScratch ∧
      ∃ positions, sparsity.locations.get? row = some positions ∧
        copiesOf row positions provided = .ok call.copies) := by
  rw [make, bind_eq_ok_iff] at made
  obtain ⟨positions, found, made⟩ := made
  rw [bind_eq_ok_iff] at made
  obtain ⟨ordered, flagged, made⟩ := made
  cases ordered with
  | true =>
    rw [if_pos rfl, bind_eq_ok_iff] at made
    obtain ⟨start, _, equal⟩ := made
    cases equal
    exact .inl ⟨flagged, ⟨_, rfl⟩, rfl⟩
  | false =>
    rw [if_neg Bool.false_ne_true, bind_eq_ok_iff] at made
    obtain ⟨copies, copied, equal⟩ := made
    cases equal
    exact .inr ⟨flagged, rfl, rfl, positions,
      Locations.find_eq_ok_iff.mp found, copied⟩

theorem copiesOf_nil {copies : List Copy}
    (made : copiesOf row [] provided = .ok copies) : copies = [] := by
  rw [copiesOf, bind_eq_ok_iff] at made
  obtain ⟨lists, visited, equal⟩ := made
  cases equal
  rw [List.flatten_eq_nil_iff]
  intro list member
  obtain ⟨element, _, found⟩ := (mem_of_mapM_eq_ok visited).mp member
  cases found

/-- A statement of the call mentions the scratch buffer. -/
theorem any_mentionsScratch (options : Options) (call : RowCall) :
    (call.statements options).any Statement.mentionsScratch =
      (call.setsPointer && call.destination == .scratch ||
        !call.copies.isEmpty) := by
  obtain ⟨row, destination, setsPointer, copies⟩ := call
  cases destination <;> cases setsPointer <;> cases copies <;>
    simp [statements, Statement.mentionsScratch]

theorem copies_statements (options : Options) (call : RowCall) :
    (call.statements options).flatMap Statement.copies = call.copies := by
  obtain ⟨row, destination, setsPointer, copies⟩ := call
  cases setsPointer <;>
    simp [statements, Statement.copies, List.flatMap_map]

/-- Where the pointer is not known to be at the scratch buffer, the calls mention
the buffer exactly if a row is not ordered: the first such call sets the
pointer. -/
theorem makeAll_mentionsScratch (options : Options)
    (made : makeAll sparsity atScratch entries = .ok calls) :
    (atScratch = true ∨ (calls.flatMap (statements options)).any
        Statement.mentionsScratch = true) ↔
      (atScratch = true ∨
        ∃ entry ∈ entries, sparsity.isOrdered entry.1 = .ok false) := by
  induction entries generalizing atScratch calls with
  | nil =>
    cases made
    simp
  | cons entry rest ih =>
    obtain ⟨call, others, one, remaining, rfl⟩ :=
      makeAll_cons_eq_ok.mp made
    have later := ih remaining
    rw [List.flatMap_cons, List.any_append, Bool.or_eq_true,
      any_mentionsScratch, List.exists_mem_cons_iff]
    rcases make_ways one with ⟨ordered, ⟨start, placed⟩, none⟩ |
      ⟨unordered, buffered, sets, _⟩
    · have unlike : (Destination.result (.number start) == .scratch) = false :=
        rfl
      rw [placed, unlike] at later
      simp only [Bool.false_eq_true, false_or] at later
      rw [placed, none, unlike, ordered, later]
      simp
    · rw [buffered, sets, unordered]
      cases atScratch <;> simp

/-- Each call is made for a row. -/
theorem makeAll_made (made : makeAll sparsity atScratch entries = .ok calls) :
    List.Forall₂ (fun (entry : Nat × IndexSet) call =>
      ∃ known, make sparsity known entry.1 entry.2 = .ok call)
      entries calls := by
  induction entries generalizing atScratch calls with
  | nil =>
    cases made
    exact .nil
  | cons entry rest ih =>
    obtain ⟨call, others, one, remaining, rfl⟩ :=
      makeAll_cons_eq_ok.mp made
    exact .cons ⟨atScratch, one⟩ (ih remaining)

/-- A row whose elements are copied has recorded elements and is not ordered. -/
theorem hasElements_of_copies
    (made : make sparsity atScratch row provided = .ok call)
    (copied : call.copies ≠ []) :
    sparsity.isOrdered row = .ok false ∧
      sparsity.locations.HasElements row := by
  rcases make_ways made with ⟨_, _, none⟩ |
    ⟨unordered, _, _, positions, found, copies⟩
  · exact absurd none copied
  · refine ⟨unordered, positions, found, ?_⟩
    rintro rfl
    exact copied (copiesOf_nil copies)

end RowCall

/-! ## Groups -/

namespace LoopGroup

variable {group : LoopGroup} {sparsity : Sparsity} {detector : Detector}
  {access : GroupAccess}

/-- A bucket with elements has a key with recorded elements. -/
theorem exists_hasElements (found : group.access sparsity detector = .ok access)
    {bucket : ElementBucket} (member : bucket ∈ access.buckets.values)
    (filled : bucket.elements ≠ []) :
    ∃ key ∈ access.keys, sparsity.locations.HasElements key := by
  obtain ⟨count, stored⟩ := IndexMap.mem_values.mp member
  obtain ⟨gathered, key, inside⟩ := access_gathered found stored
  obtain ⟨provided, present, sized⟩ := (gathered.keys key).mp inside
  have several : 0 < provided.toList.length := by
    show 0 < provided.size
    rw [sized, ← gathered.length]
    exact List.length_pos_of_ne_nil filled
  obtain ⟨element, among⟩ := List.exists_mem_of_length_pos several
  obtain ⟨positions, recorded, located⟩ :=
    ((exists_access_iff detector).mp ⟨access, found⟩).isLocated present
  obtain ⟨position, single⟩ := located element (IndexSet.mem_toList.mp among)
  obtain ⟨targets, here, _⟩ := Locations.position?_eq_some_iff.mp single
  refine ⟨key, ?_, positions, recorded, ?_⟩
  · rw [(access_eq_ok found).1, IndexMap.mem_keyList]
    exact ⟨provided, IndexMap.get?_eq_some_iff.mp present⟩
  · exact List.ne_nil_of_mem (List.mem_of_getElem? here)

end LoopGroup

namespace GroupCall

variable {isUnrolled atScratch : Bool} {loop group : Nat}
  {access : GroupAccess} {call : GroupCall}
  {entries : List (Nat × Nat × GroupAccess)} {calls : List GroupCall}

/-- The two ways in which a group is called. -/
theorem make_ways
    (made : make isUnrolled atScratch loop group access = .ok call) :
    ((∃ start, access.start = some start ∧
        call.destination = .result (start.current isUnrolled)) ∧
      call.copyBack = none) ∨
    (access.start = none ∧ call.destination = .scratch ∧
      access.copyBack isUnrolled = .ok call.copyBack) := by
  rw [make, bind_eq_ok_iff] at made
  obtain ⟨key, _, made⟩ := made
  split at made
  · next start placed =>
    cases made
    exact .inl ⟨⟨start, placed, rfl⟩, rfl⟩
  · next unplaced =>
    rw [bind_eq_ok_iff] at made
    obtain ⟨copyBack, copied, equal⟩ := made
    cases equal
    exact .inr ⟨unplaced, rfl, copied⟩

/-- Each call is made for a group. -/
theorem makeAll_made
    (made : makeAll isUnrolled atScratch entries = .ok calls) :
    List.Forall₂ (fun (entry : Nat × Nat × GroupAccess) call =>
      ∃ known, make isUnrolled known entry.1 entry.2.1 entry.2.2 = .ok call)
      entries calls := by
  induction entries generalizing atScratch calls with
  | nil =>
    cases made
    exact .nil
  | cons entry rest ih =>
    obtain ⟨call, others, one, remaining, rfl⟩ :=
      makeAll_cons_eq_ok.mp made
    exact .cons ⟨atScratch, one⟩ (ih remaining)

/-- A group mentions the scratch buffer exactly if it does not write in place:
it clears the buffer before the call. -/
theorem mentionsScratch_iff (options : Options) (naming : GroupNaming)
    (scratchSize : Nat)
    (made : make isUnrolled atScratch loop group access = .ok call) :
    (call.statements options naming scratchSize isUnrolled).any
        Statement.mentionsScratch = true ↔ access.start = none := by
  rcases make_ways made with ⟨⟨start, placed, inPlace⟩, none⟩ |
    ⟨unplaced, buffered, _⟩
  · rw [statements, inPlace, none, placed]
    cases call.setsPointer <;> cases isUnrolled <;>
      simp [Statement.mentionsScratch, Destination.clearing]
  · rw [statements, buffered, unplaced]
    simp [Statement.mentionsScratch, Destination.clearing]

/-- The copies of a group are those after the call. -/
theorem copies_statements (options : Options) (naming : GroupNaming)
    (scratchSize : Nat) (call : GroupCall) :
    (call.statements options naming scratchSize isUnrolled).flatMap
        Statement.copies =
      call.copyBack.toList.flatMap fun chain =>
        chain.bodies.flatMap BucketCopies.all := by
  obtain ⟨loop, group, destination, setsPointer, key, copyBack⟩ := call
  cases destination <;> cases setsPointer <;> cases isUnrolled <;>
    simp [statements, Statement.copies, Destination.clearing, List.flatMap_map]

/-- A group whose elements are copied has a key with recorded elements and does
not write in place. -/
theorem hasElements_of_copies (options : Options) (naming : GroupNaming)
    (scratchSize : Nat) {source : LoopGroup} {sparsity : Sparsity}
    {detector : Detector}
    (found : source.access sparsity detector = .ok access)
    (made : make isUnrolled atScratch loop group access = .ok call)
    (copied : (call.statements options naming scratchSize isUnrolled).flatMap
      Statement.copies ≠ []) :
    access.start = none ∧
      ∃ key ∈ access.keys, sparsity.locations.HasElements key := by
  rw [copies_statements] at copied
  obtain ⟨copy, member⟩ := List.exists_mem_of_ne_nil _ copied
  obtain ⟨chain, present, member⟩ := List.mem_flatMap.mp member
  obtain ⟨copies, among, member⟩ := List.mem_flatMap.mp member
  rcases make_ways made with ⟨_, none⟩ | ⟨unplaced, _, after⟩
  · rw [none] at present
    cases present
  · rw [Option.mem_toList.mp present] at after
    obtain ⟨bucket, listed, lastKey, ofBucket⟩ :=
      GroupAccess.exists_bucket after among
    refine ⟨unplaced,
      LoopGroup.exists_hasElements found listed fun none => ?_⟩
    rw [BucketCopies.all_of_no_elements ofBucket none] at member
    cases member

end GroupCall

namespace Round

variable {atScratch : Bool}
  {entries : List (Nat × IndexMap (IndexMap GroupAccess))}
  {rounds : List Round}

/-- Each round is made for a number of keys. -/
theorem makeAll_made (made : makeAll atScratch entries = .ok rounds) :
    List.Forall₂ (fun entry round => round.count = entry.1 ∧
      ∃ known, GroupCall.makeAll round.isUnrolled known (accesses entry.2) =
        .ok round.calls) entries rounds := by
  induction entries generalizing atScratch rounds with
  | nil =>
    cases made
    exact .nil
  | cons entry rest ih =>
    obtain ⟨calls, others, one, remaining, rfl⟩ :=
      makeAll_cons_eq_ok.mp made
    exact .cons ⟨rfl, _, one⟩ (ih remaining)

theorem statements_parts (options : Options) (naming : GroupNaming)
    (scratchSize : Nat) (round : Round) :
    (round.parts options naming scratchSize).flatMap Part.statements =
      round.calls.flatMap
        (GroupCall.statements options naming scratchSize round.isUnrolled) := by
  rw [parts]
  split
  · rw [List.flatMap_map]
    exact List.flatMap_singleton' _
  · exact List.flatMap_singleton _ _

/-- The calls of the rounds and those of the plan belong together. -/
theorem exists_made {plan : CallPlan}
    (made : makeAll atScratch plan.entries = .ok rounds) :
    (∀ planned ∈ plan.calls, ∃ round ∈ rounds, ∃ call ∈ round.calls,
      round.count = planned.1 ∧
      ∃ known, GroupCall.make round.isUnrolled known planned.2.1
        planned.2.2.1 planned.2.2.2 = .ok call) ∧
    ∀ round ∈ rounds, ∀ call ∈ round.calls, ∃ planned ∈ plan.calls,
      round.count = planned.1 ∧
      ∃ known, GroupCall.make round.isUnrolled known planned.2.1
        planned.2.2.1 planned.2.2.2 = .ok call := by
  have related := makeAll_made made
  rw [calls_eq]
  constructor
  · intro planned member
    obtain ⟨entry, stored, listed⟩ := List.mem_flatMap.mp member
    obtain ⟨access, among, rfl⟩ := List.mem_map.mp listed
    obtain ⟨round, present, counted, _, calls⟩ :=
      exists_right_of_mem related stored
    obtain ⟨call, inside, known, one⟩ :=
      exists_right_of_mem (GroupCall.makeAll_made calls) among
    exact ⟨round, present, call, inside, counted, known, one⟩
  · intro round present call inside
    obtain ⟨entry, stored, counted, _, calls⟩ :=
      exists_left_of_mem related present
    obtain ⟨access, among, known, one⟩ :=
      exists_left_of_mem (GroupCall.makeAll_made calls) inside
    exact ⟨(entry.1, access), List.mem_flatMap.mpr
      ⟨entry, stored, List.mem_map_of_mem among⟩, counted, known, one⟩

/-- The rounds mention the scratch buffer exactly if a group does not write in
place. -/
theorem mentionsScratch_iff (options : Options) (naming : GroupNaming)
    (scratchSize : Nat) {plan : CallPlan}
    (made : makeAll atScratch plan.entries = .ok rounds) :
    (rounds.flatMap fun round => round.calls.flatMap
        (GroupCall.statements options naming scratchSize
          round.isUnrolled)).any Statement.mentionsScratch = true ↔
      ∃ call ∈ plan.calls, call.2.2.2.start = none := by
  obtain ⟨ofPlan, ofRounds⟩ := exists_made made
  constructor
  · intro mentioned
    obtain ⟨statement, member, mentions⟩ := List.any_eq_true.mp mentioned
    obtain ⟨round, present, member⟩ := List.mem_flatMap.mp member
    obtain ⟨call, inside, member⟩ := List.mem_flatMap.mp member
    obtain ⟨entry, listed, _, known, one⟩ :=
      ofRounds round present call inside
    exact ⟨entry, listed,
      (GroupCall.mentionsScratch_iff options naming scratchSize one).mp
        (List.any_eq_true.mpr ⟨statement, member, mentions⟩)⟩
  · rintro ⟨entry, listed, unplaced⟩
    obtain ⟨round, present, call, inside, _, known, one⟩ :=
      ofPlan entry listed
    obtain ⟨statement, member, mentions⟩ := List.any_eq_true.mp
      ((GroupCall.mentionsScratch_iff options naming scratchSize one).mpr
        unplaced)
    exact List.any_eq_true.mpr ⟨statement, List.mem_flatMap.mpr
      ⟨round, present, List.mem_flatMap.mpr ⟨call, inside, member⟩⟩,
      mentions⟩

end Round

/-! ## The function -/

namespace UsageFunction

variable {sparsity : Sparsity} {detector : Detector} {plan : CallPlan}
  {function : UsageFunction}

/-- All statements of the function, in the order in which they are written. -/
def statements (options : Options) (naming : GroupNaming)
    (function : UsageFunction) : List Statement :=
  (function.parts options naming).flatMap Part.statements

theorem statements_eq (options : Options) (naming : GroupNaming)
    (function : UsageFunction) :
    function.statements options naming =
      function.preparation options ++ function.rowStatements options ++
        (function.rounds.flatMap fun round => round.calls.flatMap
          (GroupCall.statements options naming function.scratchSize
            round.isUnrolled)) ++ [.blank] := by
  have single : ∀ statements : List Statement,
      (statements.map Part.once).flatMap Part.statements = statements := by
    intro statements
    rw [List.flatMap_map]
    exact List.flatMap_singleton' _
  have rounds : (function.rounds.flatMap
      (Round.parts options naming function.scratchSize)).flatMap
        Part.statements =
      function.rounds.flatMap fun round => round.calls.flatMap
        (GroupCall.statements options naming function.scratchSize
          round.isUnrolled) := by
    rw [List.flatMap_assoc]
    exact List.flatMap_congr fun round _ =>
      Round.statements_parts options naming function.scratchSize round
  rw [statements, parts, List.flatMap_append, List.flatMap_append, single,
    rounds]
  rfl

/-- The preparation has nothing to do with the scratch buffer. -/
theorem preparation_ignores_scratch {options : Options} {statement : Statement}
    (member : statement ∈ function.preparation options) :
    statement.mentionsScratch = false ∧ statement.copies = [] := by
  simp only [preparation, List.mem_append, List.mem_cons, List.mem_map,
    List.not_mem_nil, or_false] at member
  rcases member with ((rfl | rfl) | ⟨_, _, rfl⟩) | rfl | rfl | rfl <;>
    exact ⟨rfl, rfl⟩

/-- The row statements are those of the calls, and blanks. -/
theorem mem_rowStatements {options : Options} {statement : Statement}
    (solid : statement ≠ .blank) :
    statement ∈ function.rowStatements options ↔
      statement ∈ function.rowCalls.flatMap (RowCall.statements options) := by
  rw [rowStatements]
  split
  · next none => rw [List.isEmpty_iff.mp none, List.flatMap_nil]
  · simp [solid]

/-- The row statements mention the scratch buffer exactly if a row is not
ordered. -/
theorem rowStatements_mentionsScratch_iff (options : Options)
    (made : RowCall.makeAll sparsity false sparsity.rowElements.entries =
      .ok function.rowCalls) :
    (function.rowStatements options).any Statement.mentionsScratch = true ↔
      ∃ entry ∈ sparsity.rowElements.entries,
        sparsity.isOrdered entry.1 = .ok false := by
  have calls := RowCall.makeAll_mentionsScratch options made
  simp only [Bool.false_eq_true, false_or, List.any_eq_true] at calls ⊢
  rw [← calls]
  refine exists_congr fun statement =>
    and_congr_left fun mentions => mem_rowStatements ?_
  rintro rfl
  cases mentions

/-- A made function mentions the scratch buffer exactly if a row or key goes
through it. -/
theorem mentionsScratch_iff (options : Options) (naming : GroupNaming)
    (planned : sparsity.callPlan detector = .ok plan)
    (made : make sparsity plan = .ok function) :
    function.mentionsScratch options naming = true ↔
      ∃ key, plan.Buffers sparsity key := by
  obtain ⟨_, _, _, rowsMade, roundsMade⟩ := make_eq_ok made
  have prepared : (function.preparation options).any
      Statement.mentionsScratch = false := by
    rw [List.any_eq_false]
    intro statement member
    rw [(preparation_ignores_scratch member).1]
    exact Bool.false_ne_true
  have rows := rowStatements_mentionsScratch_iff options rowsMade
  have rounds :=
    Round.mentionsScratch_iff options naming function.scratchSize roundsMade
  show (function.statements options naming).any Statement.mentionsScratch =
    true ↔ _
  rw [statements_eq, List.any_append, List.any_append, List.any_append,
    prepared, Bool.false_or, Bool.or_eq_true, Bool.or_eq_true, rows, rounds]
  constructor
  · rintro ((⟨entry, stored, unordered⟩ |
      ⟨⟨_, _, _, access⟩, listed, unplaced⟩) | mentioned)
    · exact ⟨entry.1, .row (List.mem_map_of_mem stored) unordered⟩
    · have inhabited :=
        (CallPlan.isWritable_of_callPlan planned _ listed).inhabited
      obtain ⟨key, among⟩ := List.exists_mem_of_ne_nil _ inhabited
      exact ⟨key, .key listed unplaced among⟩
    · exact absurd mentioned Bool.false_ne_true
  · rintro ⟨key, buffers⟩
    cases buffers with
    | row listed unordered =>
      obtain ⟨entry, stored, rfl⟩ := List.mem_map.mp listed
      exact .inl (.inl ⟨entry, stored, unordered⟩)
    | key listed unplaced _ => exact .inl (.inr ⟨_, listed, unplaced⟩)

/-- A made function copies from the scratch buffer only if an array with elements
goes through it. -/
theorem exists_hasElements_of_copies (options : Options) (naming : GroupNaming)
    (planned : sparsity.callPlan detector = .ok plan)
    (made : make sparsity plan = .ok function)
    {statement : Statement}
    (member : statement ∈ function.statements options naming)
    (copied : statement.copies ≠ []) :
    ∃ key, plan.Buffers sparsity key ∧
      sparsity.locations.HasElements key := by
  obtain ⟨_, _, _, rowsMade, roundsMade⟩ := make_eq_ok made
  obtain ⟨copy, among⟩ := List.exists_mem_of_ne_nil _ copied
  rw [statements_eq] at member
  simp only [List.mem_append, List.mem_singleton] at member
  rcases member with ((prepares | ofRow) | ofRound) | rfl
  · exact absurd (preparation_ignores_scratch prepares).2 copied
  · have solid : statement ≠ .blank := by
      rintro rfl
      exact copied rfl
    obtain ⟨call, present, inside⟩ :=
      List.mem_flatMap.mp ((mem_rowStatements solid).mp ofRow)
    obtain ⟨entry, stored, _, one⟩ :=
      exists_left_of_mem (RowCall.makeAll_made rowsMade) present
    have copies : call.copies ≠ [] := by
      rw [← RowCall.copies_statements options]
      exact List.ne_nil_of_mem (List.mem_flatMap.mpr ⟨_, inside, among⟩)
    obtain ⟨unordered, hasElements⟩ :=
      RowCall.hasElements_of_copies one copies
    exact ⟨entry.1, .row (List.mem_map_of_mem stored) unordered, hasElements⟩
  · obtain ⟨round, present, ofCall⟩ := List.mem_flatMap.mp ofRound
    obtain ⟨call, listed, inside⟩ := List.mem_flatMap.mp ofCall
    obtain ⟨⟨count, loop, group, access⟩, stored, _, _, one⟩ :=
      (Round.exists_made roundsMade).2 round present call listed
    obtain ⟨source, _, _, _, found, _⟩ :=
      (Sparsity.mem_calls_callPlan planned).mp stored
    obtain ⟨unplaced, key, keyed, hasElements⟩ :=
      GroupCall.hasElements_of_copies options naming function.scratchSize
        found one (List.ne_nil_of_mem
          (List.mem_flatMap.mpr ⟨_, inside, among⟩))
    exact ⟨key, .key stored unplaced keyed, hasElements⟩
  · exact absurd rfl copied

/-- The line that declares the scratch buffer. -/
def scratchDeclaration (options : Options) (function : UsageFunction) :
    String :=
  indented 1 s!"{options.baseType} compressed[{function.scratchSize}];"

theorem scratchDeclaration_mem (options : Options)
    (positive : 0 < function.scratchSize) :
    function.scratchDeclaration options ∈
      function.declarationLines options := by
  rw [declarationLines, if_pos positive]
  simp [scratchDeclaration]

end UsageFunction

namespace Request

variable {request : Request} {naming : GroupNaming} {detector : Detector}
  {source : GeneratedSource}

/-- Where generation succeeds, the scratch buffer is mentioned exactly if the
array of some row or key goes through it, and it is declared exactly if such an
array has elements.  So it is declared where elements are copied from it. -/
theorem scratch_declared_for_elements
    (generated : request.generateWith naming detector = .ok source) :
    ∃ plan function, request.usage.callPlan detector = .ok plan ∧
      UsageFunction.make request.usage plan = .ok function ∧
      source.usage = function.text request.options naming ∧
      function.text request.options naming =
        textOfLines (function.lines request.options naming) ∧
      (function.mentionsScratch request.options naming = true ↔
        ∃ key, plan.Buffers request.usage key) ∧
      (0 < function.scratchSize ↔ ∃ key, plan.Buffers request.usage key ∧
        request.usage.locations.HasElements key) ∧
      (0 < function.scratchSize →
        function.scratchDeclaration request.options ∈
          function.declarationLines request.options) ∧
      ∀ statement ∈ function.statements request.options naming,
        statement.copies ≠ [] → 0 < function.scratchSize := by
  obtain ⟨plan, function, planned, made, written, _⟩ :=
    generateWith_eq_ok generated
  have positive := CallPlan.scratchSize_pos_iff
    (UsageFunction.make_eq_ok made).2.1
  refine ⟨plan, function, planned, made, written,
    UsageFunction.text_eq _ _ _,
    UsageFunction.mentionsScratch_iff _ _ planned made, positive,
    UsageFunction.scratchDeclaration_mem _, ?_⟩
  intro statement member copied
  exact positive.mpr (UsageFunction.exists_hasElements_of_copies _ _ planned
    made member copied)

/-- Row two of the mixed description goes through the scratch buffer and has two
recorded elements, so the buffer is mentioned and declared. -/
theorem mixed_declares_scratch :
    ∃ (source : GeneratedSource) (plan : CallPlan) (function : UsageFunction),
      ({ usage := UsageFunction.mixed } : Request).generateWith
        GroupNaming.short Detector.affine = .ok source ∧
      source.usage = UsageFunction.text {} GroupNaming.short function ∧
      plan.Buffers UsageFunction.mixed 2 ∧
      UsageFunction.mixed.locations.HasElements 2 ∧
      function.mentionsScratch {} GroupNaming.short = true ∧
      0 < function.scratchSize ∧
      function.scratchDeclaration {} ∈ function.declarationLines {} := by
  obtain ⟨source, generated⟩ :
      ∃ source, ({ usage := UsageFunction.mixed } : Request).generateWith
        GroupNaming.short Detector.affine = .ok source :=
    exists_of_isOk rfl
  obtain ⟨plan, function, _, _, written, _, mentioned, sized, declared, _⟩ :=
    scratch_declared_for_elements generated
  have buffers : plan.Buffers UsageFunction.mixed 2 := .row (by decide) rfl
  have hasElements : UsageFunction.mixed.locations.HasElements 2 :=
    ⟨_, rfl, List.cons_ne_nil _ _⟩
  have positive := sized.mpr ⟨2, buffers, hasElements⟩
  exact ⟨source, plan, function, generated, written, buffers, hasElements,
    mentioned.mpr ⟨2, buffers⟩, positive, declared positive⟩

/-- A group of two keys without elements, which are not ordered. -/
def emptyKeys : Request where
  usage :=
    { loopGroups := IndexMap.ofList
        [(0, IndexMap.ofList [(0, IndexMap.ofList [(0, ∅), (1, ∅)])])]
      locations := IndexMap.ofList [(0, []), (1, [])]
      ordered := IndexMap.ofList [(0, false), (1, false)]
      entryCount := 1 }

/-- The pointer is set to a scratch buffer that is not declared, and the buffer
is cleared. -/
theorem emptyKeys_leave_scratch_undeclared :
    ∃ source plan function,
      emptyKeys.generateWith GroupNaming.short Detector.affine = .ok source ∧
      emptyKeys.usage.callPlan Detector.affine = .ok plan ∧
      UsageFunction.make emptyKeys.usage plan = .ok function ∧
      source.usage =
        function.text emptyKeys.options GroupNaming.short ∧
      .point .scratch ∈
        function.statements emptyKeys.options GroupNaming.short ∧
      function.mentionsScratch emptyKeys.options GroupNaming.short = true ∧
      function.scratchSize = 0 := by
  have checked : (do
      let plan ← emptyKeys.usage.callPlan Detector.affine
      let function ← UsageFunction.make emptyKeys.usage plan
      let _ ← UsageFunction.generate emptyKeys.options emptyKeys.usage plan
        GroupNaming.short
      pure (decide (
        .point .scratch ∈
            function.statements emptyKeys.options GroupNaming.short ∧
          function.mentionsScratch emptyKeys.options GroupNaming.short = true ∧
          function.scratchSize = 0))) =
      (.ok true : Except Failure Bool) :=
    rfl
  obtain ⟨plan, function, _, planned, made, _, facts⟩ :=
    UsageFunction.exists_of_checked checked
  obtain ⟨source, generated⟩ :
      ∃ source, emptyKeys.generateWith GroupNaming.short Detector.affine =
        .ok source :=
    exists_of_isOk rfl
  obtain ⟨_, _, again, madeAgain, written, _⟩ := generateWith_eq_ok generated
  rw [planned] at again
  cases again
  rw [made] at madeAgain
  cases madeAgain
  exact ⟨source, plan, function, generated, planned, made, written,
    of_decide_eq_true facts⟩

end Request

end SparseLoop
