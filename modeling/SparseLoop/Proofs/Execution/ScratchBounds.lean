import SparseLoop.Proofs.Execution.Stepwise

/-!
# The scratch buffer is large enough

The scratch buffer is as long as the widest row or key that reaches the result
through it.  It is accessed in three ways: the function itself clears it, the
functions that it calls write to it where the output pointer points, and the
copies after a call read from it.

A called function writes to the places of the elements of its row or key, and a
copy reads the place of such an element, so all of this stays inside the width
of the row or key at hand.  Where a copy reads is the value of a pattern, so
this needs a detector that reproduces its points.  Where a called function
writes depends on the output pointer, which is followed from action to action,
so that nothing has to be said about accesses of the result.
-/

namespace SparseLoop

open Traversal

/-! ## Accesses -/

section Accesses

variable {V : Type}

/-- What a called function provides, for a key or without one. -/
def Library.provided (library : Library V) (function : String) :
    Option Nat → (Nat → Option Input) → List (Nat × V)
  | none => library.rows function
  | some key => library.keys function key

/-- The functions of a description provide nothing but elements of their row or
key, whatever their inputs are. -/
structure Library.KeepsToElements (library : Library V) (options : Options)
    (naming : GroupNaming) (sparsity : Sparsity) : Prop where
  rows : ∀ entry ∈ sparsity.rowElements.entries, ∀ inputs,
    ∀ pair ∈ library.rows (options.rowFunction entry.1) inputs,
      pair.1 ∈ entry.2
  keys : ∀ served ∈ sparsity.groupKeys, ∀ inputs,
    ∀ pair ∈ library.keys
        (naming options.modelName served.loop served.group) served.key
        inputs,
      pair.1 ∈ served.provided

/-- Where the output pointer points after an action. -/
def Action.pointerAfter (pointer : Option (Buffer × Nat)) :
    Action → Option (Buffer × Nat)
  | point buffer offset => some (buffer, offset)
  | _ => pointer

/-- An action stays inside a scratch buffer of some size: it reads and clears
only what exists, and a function that it calls with the output pointer in the
buffer writes only there. -/
def Action.StaysInside (library : Library V) (scratchSize : Nat)
    (pointer : Option (Buffer × Nat)) : Action → Prop
  | add _ source => source < scratchSize
  | clear .scratch count => count ≤ scratchSize
  | call function key =>
    ∀ place, pointer = some (.scratch, place) →
      ∀ inputs, ∀ pair ∈ behind place (library.provided function key inputs),
        pair.1 < scratchSize
  | _ => True

/-- Actions one after the other stay inside the scratch buffer. -/
def Action.AllStayInside (library : Library V) (scratchSize : Nat) :
    Option (Buffer × Nat) → List Action → Prop
  | _, [] => True
  | pointer, action :: rest =>
    action.StaysInside library scratchSize pointer ∧
      AllStayInside library scratchSize (action.pointerAfter pointer) rest

/-! ## Invocations -/

namespace Invocation

variable {library : Library V} {options : Options} {naming : GroupNaming}
  {sparsity : Sparsity} {scratchSize : Nat} {invocation : Invocation}

/-- An invocation accesses the scratch buffer only inside. -/
structure IsInside (library : Library V) (scratchSize : Nat)
    (invocation : Invocation) : Prop where
  clears : ∀ count, invocation.cleared = some count → count ≤ scratchSize
  writes : invocation.place = none → ∀ inputs,
    ∀ pair ∈ library.provided invocation.function invocation.key inputs,
      pair.1 < scratchSize
  reads : ∀ copy ∈ invocation.copies, copy.2 < scratchSize

theorem OfRow.isInside {row : Nat} {provided : IndexSet}
    (ofRow : invocation.OfRow options sparsity scratchSize row provided)
    (keeps : ∀ inputs,
      ∀ pair ∈ library.rows (options.rowFunction row) inputs,
        pair.1 ∈ provided) :
    invocation.IsInside library scratchSize where
  clears count cleared := by
    rw [ofRow.uncleared] at cleared
    cases cleared
  writes unplaced inputs pair member := by
    rw [ofRow.unkeyed, ofRow.named, Library.provided] at member
    rcases ofRow.way with ⟨start, _, _, placed, _⟩ |
      ⟨positions, _, inside, wide, _⟩
    · rw [unplaced] at placed
      cases placed
    · exact Nat.lt_of_lt_of_le (inside _ (keeps inputs pair member)) wide
  reads copy among := by
    rcases ofRow.way with ⟨_, _, _, _, none⟩ |
      ⟨positions, _, inside, wide, _, copies⟩
    · rw [none] at among
      cases among
    · rw [copies, List.mem_flatMap] at among
      obtain ⟨element, present, among⟩ := among
      obtain ⟨_, _, rfl⟩ := List.mem_map.mp among
      exact Nat.lt_of_lt_of_le
        (inside element (IndexSet.mem_toList.mp present)) wide

theorem OfKey.isInside {served : GroupKey}
    (ofKey : invocation.OfKey options naming sparsity scratchSize served)
    (keeps : ∀ inputs,
      ∀ pair ∈ library.keys
          (naming options.modelName served.loop served.group) served.key
          inputs,
        pair.1 ∈ served.provided) :
    invocation.IsInside library scratchSize where
  clears count cleared := by
    rcases ofKey.way with ⟨_, _, _, _, uncleared, _⟩ | ⟨_, _, whole, _⟩
    · rw [uncleared] at cleared
      cases cleared
    · rw [whole] at cleared
      cases cleared
      exact Nat.le_refl _
  writes unplaced inputs pair member := by
    rw [ofKey.keyed, ofKey.named, Library.provided] at member
    rcases ofKey.way with ⟨start, _, _, placed, _⟩ | ⟨_, _, _, inside, _⟩
    · rw [unplaced] at placed
      cases placed
    · exact inside _ (keeps inputs pair member)
  reads copy among := by
    rcases ofKey.way with ⟨_, _, _, _, _, none⟩ |
      ⟨pairs, _, _, inside, related, permuted⟩
    · rw [none] at among
      cases among
    · obtain ⟨element, present, same, _⟩ :=
        exists_left_of_mem related (permuted.mem_iff.mp among)
      rw [same]
      exact inside element (IndexSet.mem_toList.mp present)

end Invocation

/-! ## Following the output pointer -/

namespace Action

variable {library : Library V} {scratchSize : Nat}
  {pointer : Option (Buffer × Nat)} {first second actions : List Action}

/-- Where the output pointer points after some actions. -/
def pointerAfterAll (pointer : Option (Buffer × Nat))
    (actions : List Action) : Option (Buffer × Nat) :=
  actions.foldl pointerAfter pointer

theorem pointerAfterAll_append (pointer : Option (Buffer × Nat))
    (first second : List Action) :
    pointerAfterAll pointer (first ++ second) =
      pointerAfterAll (pointerAfterAll pointer first) second :=
  List.foldl_append

theorem allStayInside_append :
    AllStayInside library scratchSize pointer (first ++ second) ↔
      AllStayInside library scratchSize pointer first ∧
        AllStayInside library scratchSize (pointerAfterAll pointer first)
          second := by
  induction first generalizing pointer with
  | nil => exact (iff_of_eq (true_and _)).symm
  | cons action rest ih =>
    rw [List.cons_append, AllStayInside, AllStayInside, and_assoc, ih]
    rfl

/-- Actions that leave the pointer where it is can be looked at one by one. -/
theorem allStayInside_of_still
    (still : ∀ action ∈ actions,
      action.pointerAfter pointer = pointer ∧
        action.StaysInside library scratchSize pointer) :
    pointerAfterAll pointer actions = pointer ∧
      AllStayInside library scratchSize pointer actions := by
  induction actions with
  | nil => exact ⟨rfl, trivial⟩
  | cons action rest ih =>
    obtain ⟨same, inside⟩ := still action List.mem_cons_self
    obtain ⟨sameLater, others⟩ :=
      ih fun other member => still other (.tail _ member)
    rw [pointerAfterAll, List.foldl_cons, AllStayInside, same]
    exact ⟨sameLater, inside, others⟩

end Action

namespace Invocation

variable {library : Library V} {scratchSize : Nat}
  {invocation : Invocation} {invocations : List Invocation}
  {pointer : Option (Buffer × Nat)} {atScratch : Bool}

/-- After the pointer was set, or where it was not, it points to the target. -/
theorem pointerAfterAll_pointing
    (pointed : invocation.IsPointed atScratch)
    (known : atScratch = true → pointer = some (.scratch, 0)) :
    Action.pointerAfterAll pointer
        (if invocation.setsPointer then [invocation.pointer] else []) =
      some invocation.target := by
  rcases pointed with sets | ⟨here, unplaced⟩
  · rw [if_pos sets, Invocation.pointer, target]
    cases invocation.place <;> rfl
  · rw [known here, target, unplaced, Invocation.pointer, unplaced]
    split <;> rfl

/-- An invocation leaves the pointer at its target and stays inside the scratch
buffer. -/
theorem IsInside.allStayInside
    (inside : invocation.IsInside library scratchSize)
    (pointed : invocation.IsPointed atScratch)
    (known : atScratch = true → pointer = some (.scratch, 0)) :
    Action.pointerAfterAll pointer invocation.actions =
        some invocation.target ∧
      Action.AllStayInside library scratchSize pointer
        invocation.actions := by
  have pointing : Action.AllStayInside library scratchSize pointer
      (if invocation.setsPointer then [invocation.pointer] else []) := by
    rw [Invocation.pointer]
    cases invocation.place <;> split <;> simp [Action.AllStayInside,
      Action.StaysInside]
  rw [actions, List.append_assoc, List.append_assoc,
    Action.pointerAfterAll_append, Action.allStayInside_append,
    pointerAfterAll_pointing pointed known]
  refine and_left_comm.mp ⟨pointing, Action.allStayInside_of_still ?_⟩
  intro action member
  simp only [List.mem_append, List.mem_map, Option.mem_toList,
    List.mem_singleton] at member
  rcases member with ⟨count, cleared, rfl⟩ | rfl | ⟨copy, among, rfl⟩
  · exact ⟨rfl, inside.clears count cleared⟩
  · refine ⟨rfl, fun place here inputs pair among => ?_⟩
    rw [target] at here
    cases placed : invocation.place with
    | some start =>
      rw [placed] at here
      cases here
    | none =>
      rw [placed] at here
      cases here
      rw [behind_zero] at among
      exact inside.writes placed inputs pair among
  · exact ⟨rfl, inside.reads copy among⟩

/-- Invocations stay inside the scratch buffer. -/
theorem allStayInside_of_pointed
    (inside : ∀ invocation ∈ invocations,
      invocation.IsInside library scratchSize)
    (pointed : Pointed atScratch invocations)
    (known : atScratch = true → pointer = some (.scratch, 0)) :
    Action.AllStayInside library scratchSize pointer
      (invocations.flatMap actions) := by
  induction invocations generalizing atScratch pointer with
  | nil => trivial
  | cons first rest ih =>
    obtain ⟨left, one⟩ :=
      (inside first List.mem_cons_self).allStayInside pointed.1 known
    rw [List.flatMap_cons, Action.allStayInside_append, left]
    refine ⟨one, ih (fun other member => inside other (.tail _ member))
      pointed.2 fun unplaced => ?_⟩
    rw [target, Option.isNone_iff_eq_none.mp unplaced]

end Invocation

end Accesses

section Performing

variable {V : Type} [AddCommMonoid V] {library : Library V}
  {inputCount scratchSize : Nat} {memory after : Memory V}
  {action : Action} {front rest : List Action}

/-- The pointer that is followed is that of the memory. -/
theorem Action.perform?_pointerAfter
    (performed : action.perform? library inputCount memory = some after) :
    after.pointer = action.pointerAfter memory.pointer := by
  cases action with
  | point buffer offset =>
    rw [perform?] at performed
    split at performed
    · cases performed
      rfl
    · cases performed
  | _ => exact perform?_pointer (fun _ _ => Action.noConfusion) performed

/-- An action that is come to stays inside the scratch buffer, if all do. -/
theorem Action.AllStayInside.staysInside
    (inside : AllStayInside library scratchSize memory.pointer
      (front ++ action :: rest))
    (performed : performAll? library inputCount memory front =
      some after) :
    action.StaysInside library scratchSize after.pointer := by
  induction front generalizing memory with
  | nil =>
    cases performed
    exact inside.1
  | cons first others ih =>
    obtain ⟨next, one, later⟩ := Option.bind_eq_some_iff.mp performed
    refine ih ?_ later
    rw [perform?_pointerAfter one]
    exact inside.2

end Performing

/-! ## Where copies read -/

/-- A group reads along a pattern at a local iteration if an element has a rule
with this source at the key of the iteration. -/
def GroupAccess.ReadsAlong (access : GroupAccess) (iteration : Nat)
    (source : IndexPattern) : Prop :=
  ∃ key bucket element target, access.keys[iteration]? = some key ∧
    bucket ∈ access.buckets.values ∧ key ∈ bucket.keys ∧
    element ∈ bucket.elements ∧ element.RuleAt key (target, source)

/-- A pattern along which a group reads has the value of an element of the
key. -/
theorem GroupAccess.Serves.source_lt {access : GroupAccess}
    {elements : KeyElements} {locations : Locations} {size iteration : Nat}
    {source : IndexPattern} (serves : access.Serves elements locations)
    (within : locations.Within (2 ^ 64))
    (wide : ∀ key ∈ access.keys, locations.WidthWithin key size)
    (reads : access.ReadsAlong iteration source) :
    (source.word iteration).toNat < size := by
  obtain ⟨key, bucket, element, target, listed, member, inside, among,
    ruled⟩ := reads
  obtain ⟨count, found⟩ := IndexMap.mem_values.mp member
  have served := serves.serves count bucket found
  obtain ⟨provided, stored, sized⟩ := (served.keys key).mp inside
  obtain ⟨rank, ranked⟩ := List.getElem?_of_mem among
  have bound : rank < provided.toList.length := by
    rw [← IndexSet.size, sized, ← served.length]
    exact (List.getElem?_eq_some_iff.mp ranked).1
  obtain ⟨_, copy, _, only, located, copied, alone, _, value⟩ :=
    served.rule_evaluates (serves.getElem?_entries listed stored) sized
      (List.getElem?_eq_getElem bound)
  rw [ranked] at copied
  cases copied
  have same := ruled.mem_rulesAt
  rw [alone, List.mem_singleton, Prod.mk.injEq] at same
  rw [same.2, IndexPattern.word_of_evaluate value,
    Word.toNat_ofNat (located.element_lt within)]
  exact located.element_lt_width (wide key (List.mem_of_getElem? listed))

/-- A group that reads along a pattern reads inside the scratch buffer. -/
theorem Sparsity.source_lt_scratchSize {sparsity : Sparsity}
    {detector : Detector} {plan : CallPlan} {size : Nat}
    (reproduces : detector.Reproduces)
    (within : sparsity.locations.Within (2 ^ 64))
    (planned : sparsity.callPlan detector = .ok plan)
    (sized : plan.scratchSize sparsity = .ok size)
    {count loop group iteration : Nat} {access : GroupAccess}
    {source : IndexPattern}
    (member : (count, loop, group, access) ∈ plan.calls)
    (reads : access.ReadsAlong iteration source) :
    (source.word iteration).toNat < size := by
  obtain ⟨_, _, _, _, made, _⟩ := (mem_calls_callPlan planned).mp member
  have serves := LoopGroup.access_serves reproduces made
  have unplaced : access.start = none := by
    cases placed : access.start with
    | none => rfl
    | some start =>
      obtain ⟨_, bucket, _, _, _, among, _⟩ := reads
      rw [(serves.inPlace start placed).1] at among
      cases among
  exact serves.source_lt within
    ((CallPlan.widthWithin_scratchSize sized).2 count loop group access
      member unplaced) reads

/-! ## The scratch buffer suffices -/

namespace UsageFunction

variable {V : Type} {library : Library V} {sparsity : Sparsity}
  {detector : Detector} {plan : CallPlan} {function : UsageFunction}

/-- The preparation neither sets the pointer nor accesses the scratch buffer. -/
theorem preparation_staysInside (library : Library V) {options : Options}
    {action : Action} (pointer : Option (Buffer × Nat))
    (member : action ∈ function.preparationActions options) :
    action.pointerAfter pointer = pointer ∧
      action.StaysInside library function.scratchSize pointer := by
  simp only [preparationActions, List.mem_append, List.mem_cons,
    List.not_mem_nil, or_false, List.mem_map] at member
  rcases member with ((rfl | rfl) | ⟨_, _, rfl⟩) | rfl <;>
    exact ⟨rfl, trivial⟩

/-- All actions of a made function stay inside the scratch buffer. -/
theorem exists_actions_inside (options : Options) (naming : GroupNaming)
    (reproduces : detector.Reproduces) (fits : sparsity.FitsWords)
    (keeps : library.KeepsToElements options naming sparsity)
    (planned : sparsity.callPlan detector = .ok plan)
    (made : make sparsity plan = .ok function) :
    ∃ actions, function.actions? options naming = some actions ∧
      Action.AllStayInside library function.scratchSize none actions := by
  obtain ⟨rows, keys, served, runs, ofRows, permuted, ofKeys, pointed⟩ :=
    make_runs options naming reproduces fits planned made
  have inside : ∀ invocation ∈ rows ++ keys,
      invocation.IsInside library function.scratchSize := by
    intro invocation member
    rcases List.mem_append.mp member with row | key
    · obtain ⟨entry, stored, ofRow⟩ := exists_left_of_mem ofRows row
      exact ofRow.isInside (keeps.rows entry stored)
    · obtain ⟨source, listed, ofKey⟩ := exists_left_of_mem ofKeys key
      exact ofKey.isInside
        (keeps.keys source (permuted.mem_iff.mp listed))
  obtain ⟨unset, prepared⟩ := Action.allStayInside_of_still fun _ member =>
    preparation_staysInside library none member
  refine ⟨_, runs, Action.allStayInside_append.mpr ⟨prepared, ?_⟩⟩
  rw [unset]
  exact Invocation.allStayInside_of_pointed inside pointed
    fun absurdly => absurd absurdly Bool.false_ne_true

/-- The scratch buffer suffices.  The actions of a generated function read and
clear only inside the buffer, and the functions that are called with the output
pointer there write only inside, if they keep to the elements of their row or
key.  So does each action that a run comes to.  The patterns along which copies
read have their values inside. -/
theorem scratch_buffer_suffices [AddCommMonoid V]
    (before : Nat → Option V) (options : Options) (naming : GroupNaming)
    {text : String} (reproduces : detector.Reproduces)
    (fits : sparsity.FitsWords)
    (keeps : library.KeepsToElements options naming sparsity)
    (planned : sparsity.callPlan detector = .ok plan)
    (generated : generate options sparsity plan naming = .ok text) :
    ∃ function, make sparsity plan = .ok function ∧
      text = function.text options naming ∧
      function.text options naming =
        textOfLines (function.lines options naming) ∧
      plan.scratchSize sparsity = .ok function.scratchSize ∧
      (∃ actions, function.actions? options naming = some actions ∧
        Action.AllStayInside library function.scratchSize none actions ∧
        ∀ front action rest reached, actions = front ++ action :: rest →
          Action.performAll? library options.inputCount
            (function.startMemory before) front = some reached →
          action.StaysInside library function.scratchSize
            reached.pointer) ∧
      ∀ count loop group access,
        (count, loop, group, access) ∈ plan.calls →
        ∀ iteration source, access.ReadsAlong iteration source →
          (source.word iteration).toNat < function.scratchSize := by
  obtain ⟨function, made, written⟩ := generate_eq_ok generated
  obtain ⟨_, sized, _⟩ := make_eq_ok made
  obtain ⟨actions, runs, inside⟩ := exists_actions_inside options naming
    reproduces fits keeps planned made
  refine ⟨function, made, written, text_eq options naming function, sized,
    ⟨actions, runs, inside, ?_⟩, ?_⟩
  · rintro front action rest reached rfl performed
    exact Action.AllStayInside.staysInside inside performed
  · intro count loop group access member iteration source
    exact Sparsity.source_lt_scratchSize reproduces fits.locations planned
      sized member

theorem mixedLibrary_keepsToElements :
    mixedLibrary.KeepsToElements {} GroupNaming.short mixed where
  rows := by
    have stored : ∀ entry ∈ mixed.rowElements.entries,
        ∀ pair ∈ mixedLibrary.rows (Options.rowFunction {} entry.1)
          fun _ => none, pair.1 ∈ entry.2 := by
      decide
    exact fun entry member _ => stored entry member
  keys := by
    have stored : ∀ served ∈ mixed.groupKeys,
        ∀ pair ∈ mixedLibrary.keys
          (GroupNaming.short (Options.modelName {}) served.loop served.group)
          served.key fun _ => none, pair.1 ∈ served.provided := by
      decide
    exact fun served member _ => stored served member

/-- The scratch buffer of the mixed description has two entries.  A row and a
group write there, and both are copied from there. -/
theorem mixed_stays_inside :
    Detector.affine.Reproduces ∧ mixed.FitsWords ∧
    mixedLibrary.KeepsToElements {} GroupNaming.short mixed ∧
    ∃ plan text function actions,
      mixed.callPlan Detector.affine = .ok plan ∧
      generate {} mixed plan GroupNaming.short = .ok text ∧
      make mixed plan = .ok function ∧ function.scratchSize = 2 ∧
      function.actions? {} GroupNaming.short = some actions ∧
      .add 1 1 ∈ actions ∧ .add 2 0 ∈ actions ∧
      Action.AllStayInside mixedLibrary 2 none actions := by
  have fits : mixed.FitsWords :=
    ⟨by decide, Locations.within_of_entries (by decide), by decide⟩
  have checked : (do
      let plan ← mixed.callPlan Detector.affine
      let function ← make mixed plan
      let _ ← generate {} mixed plan GroupNaming.short
      pure (decide (function.scratchSize = 2 ∧
        .add 1 1 ∈ (function.actions? {} GroupNaming.short).getD [] ∧
        .add 2 0 ∈ (function.actions? {} GroupNaming.short).getD []))) =
      (.ok true : Except Failure Bool) :=
    rfl
  obtain ⟨plan, function, text, planned, made, written, facts⟩ :=
    exists_of_checked checked
  obtain ⟨size, first, second⟩ := of_decide_eq_true facts
  obtain ⟨same, again, _, _, _, ⟨actions, runs, inside, _⟩, _⟩ :=
    scratch_buffer_suffices (fun _ => none) {} GroupNaming.short
      Detector.affine_reproduces fits mixedLibrary_keepsToElements planned
      written
  rw [made] at again
  cases again
  rw [runs] at first second
  rw [size] at inside
  exact ⟨Detector.affine_reproduces, fits, mixedLibrary_keepsToElements,
    plan, text, function, actions, planned, written, made, size, runs,
    first, second, inside⟩

end UsageFunction

end SparseLoop
