import SparseLoop.Proofs.Routine.Control
import SparseLoop.Proofs.Sparsity.Coverage
import SparseLoop.Proofs.Sparsity.OrderFlags

/-!
# Invocations

An invocation is one call of a row or group function together with what
surrounds it: the pointer that is set before, the entries of the scratch buffer
that are cleared, and the copies that follow.  Each call of a plan, run at a
local iteration, acts as one invocation, and this module says as which.

For a group function the invocation is determined by the key.  In place it
writes at the start of the key; otherwise it clears the scratch buffer, and the
copies take each element of the key to its position.
-/

namespace SparseLoop

open Traversal

/-- A key of a group, with the elements that the group provides for it. -/
structure GroupKey where
  loop : Nat
  group : Nat
  key : Nat
  provided : IndexSet
deriving DecidableEq, Repr

/-- The keys of a group in the order of its local iterations. -/
def LoopGroup.groupKeys (group : LoopGroup) : List GroupKey :=
  group.elements.entries.map fun (key, provided) =>
    ⟨group.loop, group.group, key, provided⟩

/-- All keys of all groups. -/
def Sparsity.groupKeys (sparsity : Sparsity) : List GroupKey :=
  sparsity.groups.flatMap LoopGroup.groupKeys

/-- One call of a function with what surrounds it. -/
structure Invocation where
  function : String
  key : Option Nat
  /-- Where in the result the call writes; with none, into the scratch
  buffer. -/
  place : Option Nat
  setsPointer : Bool
  /-- The number of entries of the scratch buffer cleared before. -/
  cleared : Option Nat
  /-- The copies after the call, as pairs of target and source. -/
  copies : List (Nat × Nat)
deriving DecidableEq, Repr

/-- A row or key has at most so many recorded elements. -/
def Locations.WidthWithin (locations : Locations) (key width : Nat) : Prop :=
  ∀ positions, locations.get? key = some positions →
    positions.length ≤ width

theorem Locations.At.element_lt_width {locations : Locations}
    {key element position width : Nat}
    (wide : locations.WidthWithin key width)
    (located : locations.At key element position) : element < width := by
  obtain ⟨positions, recorded, single⟩ := located
  obtain ⟨targets, present, _⟩ := position?_eq_some_iff.mp single
  exact Nat.lt_of_lt_of_le (List.getElem?_eq_some_iff.mp present).1
    (wide positions recorded)

namespace Invocation

/-- The action that sets the output pointer for an invocation. -/
def pointer (invocation : Invocation) : Action :=
  match invocation.place with
  | some offset => .point .result offset
  | none => .point .scratch 0

/-- The actions of an invocation. -/
def actions (invocation : Invocation) : List Action :=
  (if invocation.setsPointer then [invocation.pointer] else []) ++
    invocation.cleared.toList.map (.clear .scratch) ++
    [.call invocation.function invocation.key] ++
    invocation.copies.map fun (target, source) => .add target source

theorem actions_of_uncleared {invocation : Invocation}
    (uncleared : invocation.cleared = none) :
    invocation.actions =
      (if invocation.setsPointer then [invocation.pointer] else []) ++
        [.call invocation.function invocation.key] ++
        invocation.copies.map fun (target, source) =>
          .add target source := by
  rw [actions, uncleared, Option.toList_none, List.map_nil, List.append_nil]

/-- An invocation sets the pointer unless it is known to point to the scratch
buffer, where the call writes. -/
def IsPointed (known : Bool) (invocation : Invocation) : Prop :=
  invocation.setsPointer = true ∨
    known = true ∧ invocation.place = none

/-- The invocation of a row function. -/
structure OfRow (options : Options) (sparsity : Sparsity)
    (scratchSize row : Nat) (provided : IndexSet)
    (invocation : Invocation) : Prop where
  named : invocation.function = options.rowFunction row
  unkeyed : invocation.key = none
  uncleared : invocation.cleared = none
  way :
    (∃ start, sparsity.ordered.get? row = some true ∧
      sparsity.locations.orderedStart row provided = .ok start ∧
      invocation.place = some start ∧ invocation.copies = []) ∨
    ∃ positions, sparsity.locations.get? row = some positions ∧
      (∀ element ∈ provided, element < positions.length) ∧
      positions.length ≤ scratchSize ∧ invocation.place = none ∧
      invocation.copies = provided.toList.flatMap fun element =>
        (positions[element]?.getD ∅).toList.map fun target =>
          (target, element)

/-- The invocation of a group function at a key. -/
structure OfKey (options : Options) (naming : GroupNaming)
    (sparsity : Sparsity) (scratchSize : Nat) (served : GroupKey)
    (invocation : Invocation) : Prop where
  named : invocation.function =
    naming options.modelName served.loop served.group
  keyed : invocation.key = some served.key
  way :
    (∃ start, sparsity.Verifies served.key served.provided ∧
      sparsity.locations.orderedStart served.key served.provided =
        .ok start ∧
      invocation.place = some start ∧ invocation.cleared = none ∧
      invocation.copies = []) ∨
    ∃ pairs, invocation.place = none ∧
      invocation.cleared = some scratchSize ∧
      (∀ element ∈ served.provided, element < scratchSize) ∧
      List.Forall₂ (fun element pair => pair.2 = element ∧
        sparsity.locations.At served.key element pair.1)
        served.provided.toList pairs ∧
      invocation.copies.Perm pairs

end Invocation

namespace Word

/-- A number that is a word survives the passage through words. -/
theorem toNat_ofNat {value : Nat} (small : value < 2 ^ 64) :
    (UInt64.ofNat value).toNat = value :=
  UInt64.toNat_ofNat_of_lt' small

end Word

/-- A moment of a run: either nothing is repeated, or the iteration variable
holds the local iteration. -/
def Words.IsAt (words : Words) (isUnrolled : Bool) (iteration : Nat) :
    Prop :=
  isUnrolled = true ∧ iteration = 0 ∨
    isUnrolled = false ∧
      words.iteration = some (UInt64.ofNat iteration)

section Evaluation

variable {tables : List KeyTable} {words : Words} {isUnrolled : Bool}
  {iteration : Nat}

theorem IndexPattern.value?_current (pattern : IndexPattern)
    (moment : words.IsAt isUnrolled iteration) :
    (pattern.current isUnrolled).value? (words.environment tables) =
      some (pattern.word iteration) := by
  rcases moment with ⟨rfl, rfl⟩ | ⟨rfl, set⟩
  · rfl
  · exact pattern.value?_expression set

theorem Copy.action?_eq {environment : Environment Symbol} {copy : Copy}
    {target source : UInt64}
    (targets : copy.target.value? environment = some target)
    (sources : copy.source.value? environment = some source) :
    copy.action? environment = some
        (.add (copy.places environment).1 (copy.places environment).2) ∧
      copy.places environment = (target.toNat, source.toNat) := by
  simp [action?, places, targets, sources]

/-- Copies with values act between their places. -/
theorem Copy.mapM_action? {environment : Environment Symbol}
    {copies : List Copy}
    (valued : ∀ copy ∈ copies, ∃ target source,
      copy.target.value? environment = some target ∧
        copy.source.value? environment = some source) :
    copies.mapM (Copy.action? environment) =
      some ((copies.map (Copy.places environment)).map
        fun (target, source) => .add target source) := by
  rw [List.map_map, mapM_eq_some_iff, List.forall₂_map_right_iff,
    List.forall₂_same]
  intro copy member
  obtain ⟨target, source, targets, sources⟩ := valued copy member
  exact (action?_eq targets sources).1

/-- Copies along some rules, in any order, act between the values of the
rules. -/
theorem Copy.mapM_action?_of_perm (tables : List KeyTable)
    {copies : List Copy} {rules : List (IndexPattern × IndexPattern)}
    (permuted : copies.Perm (rules.map (Copy.ofRule isUnrolled)))
    (moment : words.IsAt isUnrolled iteration) :
    ∃ pairs : List (Nat × Nat),
      copies.mapM (Copy.action? (words.environment tables)) =
        some (pairs.map fun (target, source) => .add target source) ∧
      pairs.Perm (rules.map fun rule =>
        ((rule.1.word iteration).toNat, (rule.2.word iteration).toNat)) := by
  refine ⟨_, mapM_action? ?_, ?_⟩
  · intro copy member
    obtain ⟨rule, _, rfl⟩ := List.mem_map.mp (permuted.mem_iff.mp member)
    exact ⟨_, _, rule.1.value?_current moment, rule.2.value?_current moment⟩
  · refine (permuted.map _).trans (List.Perm.of_eq ?_)
    rw [List.map_map]
    refine List.map_congr_left fun rule _ => ?_
    exact (action?_eq (rule.1.value?_current moment)
      (rule.2.value?_current moment)).2

theorem Copy.runs_add {copies : List Copy} {actions : List Action}
    (acted : copies.mapM (Copy.action? (words.environment tables)) =
      some actions) :
    Runs (Statement.control? tables) words (copies.map .add) words
      actions := by
  induction copies generalizing actions with
  | nil =>
    cases acted
    exact Runs.nil words
  | cons copy rest ih =>
    simp only [List.mapM_cons, Option.bind_eq_bind, Option.pure_def,
      Option.bind_eq_some_iff, Option.some.injEq] at acted
    obtain ⟨first, one, others, remaining, rfl⟩ := acted
    have added : Statement.control? tables words (.add copy) =
        some (words, [first]) := by
      simp [Statement.control?, one]
    exact Runs.cons added (ih remaining)

theorem Destination.runs_point {destination : Destination}
    {action : Action} (setsPointer : Bool)
    (acted : destination.action? (words.environment tables) =
      some action) :
    Runs (Statement.control? tables) words
      (if setsPointer then [.point destination] else []) words
      (if setsPointer then [action] else []) := by
  cases setsPointer with
  | false => exact Runs.nil words
  | true =>
    refine Runs.single ?_
    simp [Statement.control?, acted]

end Evaluation

/-! ## Row functions -/

namespace RowCall

variable {options : Options} {sparsity : Sparsity} {tables : List KeyTable}
  {words : Words} {atScratch : Bool} {row : Nat} {provided : IndexSet}
  {call : RowCall}

theorem copiesOf_eq_ok {positions : List IndexSet} {copies : List Copy}
    (found : copiesOf row positions provided = .ok copies) :
    (∀ element ∈ provided, element < positions.length) ∧
      copies = provided.toList.flatMap fun element =>
        (positions[element]?.getD ∅).toList.map fun (target : Nat) =>
          { target := .number target, source := .number element } := by
  rw [copiesOf, bind_eq_ok_iff] at found
  obtain ⟨parts, visited, equal⟩ := found
  cases equal
  have related : List.Forall₂
      (fun (element : Nat) (part : List Copy) =>
        element < positions.length ∧
          part = (positions[element]?.getD ∅).toList.map
            fun (target : Nat) =>
              { target := .number target, source := .number element })
      provided.toList parts := by
    refine (mapM_eq_ok_iff.mp visited).imp fun element part made => ?_
    split at made
    · cases made
    · next targets present =>
      cases made
      refine ⟨(List.getElem?_eq_some_iff.mp present).1, ?_⟩
      rw [present, Option.getD_some]
  constructor
  · intro element member
    obtain ⟨_, _, inside, _⟩ := exists_right_of_mem related member
    exact inside
  · rw [List.flatMap_def]
    congr 1
    rw [← List.forall₂_eq_eq_eq, List.forall₂_map_right_iff]
    exact related.flip.imp fun _ _ answers => answers.2

/-- The copies of a row act between its elements and their positions. -/
theorem mapM_action?_placed {positions : List IndexSet}
    (within : sparsity.locations.Within (2 ^ 64))
    (recorded : sparsity.locations.get? row = some positions)
    (inside : ∀ element ∈ provided, element < positions.length) :
    (provided.toList.flatMap fun element =>
        (positions[element]?.getD ∅).toList.map fun (target : Nat) =>
          ({ target := .number target, source := .number element } :
            Copy)).mapM (Copy.action? (words.environment tables)) =
      some ((provided.toList.flatMap fun element =>
        (positions[element]?.getD ∅).toList.map fun target =>
          (target, element)).map
            fun (target, source) => .add target source) := by
  have places : (provided.toList.flatMap fun element =>
      (positions[element]?.getD ∅).toList.map fun (target : Nat) =>
        ({ target := .number target, source := .number element } :
          Copy)) =
      (provided.toList.flatMap fun element =>
        (positions[element]?.getD ∅).toList.map fun target =>
          (target, element)).map fun ((target, source) : Nat × Nat) =>
            { target := .number target, source := .number source } := by
    rw [List.map_flatMap]
    refine List.flatMap_congr fun element _ => ?_
    rw [List.map_map]
    rfl
  rw [places, mapM_eq_some_iff, List.forall₂_map_left_iff,
    List.forall₂_map_right_iff, List.forall₂_same]
  rintro ⟨target, source⟩ member
  obtain ⟨element, present, among⟩ := List.mem_flatMap.mp member
  obtain ⟨position, listed, equal⟩ := List.mem_map.mp among
  cases equal
  have bound := inside source present
  rw [List.getElem?_eq_getElem bound, Option.getD_some] at listed
  have targetSmall := within.positions row positions recorded _
    (List.getElem_mem bound) target listed
  have sourceSmall : source < 2 ^ 64 :=
    Nat.lt_of_lt_of_le bound (within.elements row positions recorded)
  simp [Copy.action?, Word.ofInt_natCast, Word.toNat_ofNat targetSmall,
    Word.toNat_ofNat sourceSmall]

theorem runs_statements (options : Options) (call : RowCall)
    {pointer : Action} {adds : List Action}
    (pointed : call.destination.action? (words.environment tables) =
      some pointer)
    (copied : call.copies.mapM (Copy.action? (words.environment tables)) =
      some adds) :
    Runs (Statement.control? tables) words (call.statements options) words
      ((if call.setsPointer then [pointer] else []) ++
        [.call (options.rowFunction call.row) none] ++ adds) := by
  have blank : Runs (Statement.control? tables) words [.blank] words [] :=
    Runs.single rfl
  have calls : Runs (Statement.control? tables) words
      [.call (options.rowFunction call.row) none] words
      [.call (options.rowFunction call.row) none] :=
    Runs.single rfl
  exact ((blank.append (Destination.runs_point call.setsPointer
    pointed)).append calls).append (Copy.runs_add copied)

/-- A made call of a row function runs as an invocation of it. -/
theorem make_runs (options : Options) {scratchSize : Nat}
    (within : sparsity.locations.Within (2 ^ 64))
    (wide : sparsity.isOrdered row = .ok false →
      sparsity.locations.WidthWithin row scratchSize)
    (made : make sparsity atScratch row provided = .ok call) :
    ∃ invocation : Invocation,
      Runs (Statement.control? tables) words (call.statements options) words
        invocation.actions ∧
      invocation.OfRow options sparsity scratchSize row provided ∧
      invocation.IsPointed atScratch ∧
      (call.destination == .scratch) = invocation.place.isNone := by
  rw [make, bind_eq_ok_iff] at made
  obtain ⟨positions, recorded, made⟩ := made
  rw [bind_eq_ok_iff] at made
  obtain ⟨isOrdered, flagged, made⟩ := made
  cases isOrdered with
  | true =>
    rw [if_pos rfl, bind_eq_ok_iff] at made
    obtain ⟨start, found, equal⟩ := made
    cases equal
    have small : start < 2 ^ 64 :=
      (Locations.orderedStart_eq_ok found).1.position_lt within
    have placed : Destination.action? (words.environment tables)
        (.result (.number start)) = some (.point .result start) := by
      simp [Destination.action?, Word.ofInt_natCast,
        Word.toNat_ofNat small]
    exact ⟨⟨options.rowFunction row, none, some start, true, none, []⟩,
      runs_statements options
        ⟨row, .result (.number start), true, []⟩ placed rfl,
      ⟨rfl, rfl, rfl, .inl ⟨start, Sparsity.isOrdered_eq_ok_iff.mp flagged,
        found, rfl, rfl⟩⟩, .inl rfl, rfl⟩
  | false =>
    rw [if_neg Bool.false_ne_true, bind_eq_ok_iff] at made
    obtain ⟨copies, found, equal⟩ := made
    cases equal
    obtain ⟨inside, rfl⟩ := copiesOf_eq_ok found
    have listed := Locations.find_eq_ok_iff.mp recorded
    refine ⟨⟨options.rowFunction row, none, none, !atScratch, none,
      provided.toList.flatMap fun element =>
        (positions[element]?.getD ∅).toList.map fun target =>
          (target, element)⟩,
      ?_, ⟨rfl, rfl, rfl, .inr ⟨positions, listed, inside,
        wide flagged positions listed, rfl, rfl⟩⟩, ?_, rfl⟩
    · have pointed : Destination.scratch.action?
          (words.environment tables) = some (.point .scratch 0) := rfl
      rw [Invocation.actions_of_uncleared rfl]
      exact runs_statements options ⟨row, .scratch, !atScratch, _⟩ pointed
        (mapM_action?_placed within listed inside)
    · cases atScratch with
      | false => exact .inl rfl
      | true => exact .inr ⟨rfl, rfl⟩

end RowCall

/-! ## Group functions -/

namespace GroupAccess

variable {access : GroupAccess} {elements : KeyElements}
  {locations : Locations} {iteration key : Nat} {provided : IndexSet}

theorem Serves.getElem?_keys (serves : access.Serves elements locations)
    (stored : elements.entries[iteration]? = some (key, provided)) :
    access.keys[iteration]? = some key := by
  rw [serves.keys, IndexMap.keyList, List.getElem?_map, stored,
    Option.map_some]

/-- A local iteration is no larger than its key. -/
theorem Serves.iteration_le (serves : access.Serves elements locations)
    (stored : elements.entries[iteration]? = some (key, provided)) :
    iteration ≤ key := by
  have ascending : access.keys.Pairwise (· < ·) := by
    rw [serves.keys]
    exact elements.keys.ascending
  obtain ⟨inside, listed⟩ :=
    List.getElem?_eq_some_iff.mp (serves.getElem?_keys stored)
  have least := IndexSet.le_getElem_of_ascending ascending inside
  rw [listed] at least
  exact least

end GroupAccess

namespace GroupCall

variable {options : Options} {naming : GroupNaming} {sparsity : Sparsity}
  {tables : List KeyTable} {words : Words} {isUnrolled atScratch : Bool}
  {scratchSize loop group iteration key : Nat} {provided : IndexSet}
  {access : GroupAccess} {elements : KeyElements} {call : GroupCall}

/-- What a call of a group needs at a local iteration: an unrolled call is the
only one of its group, and a group without a key pattern has its table. -/
structure Ready (tables : List KeyTable) (words : Words)
    (isUnrolled : Bool) (loop group iteration : Nat)
    (access : GroupAccess) : Prop where
  moment : words.IsAt isUnrolled iteration
  single : isUnrolled = true → access.keys.length = 1
  tabled : isUnrolled = false → access.keyPattern = none →
    KeyTable.entries? tables loop group = some access.keys

/-- The key of a call has the value of the local iteration's key. -/
theorem keyOf_value {expression : Expression Symbol}
    (serves : access.Serves elements sparsity.locations)
    (stored : elements.entries[iteration]? = some (key, provided))
    (ready : Ready tables words isUnrolled loop group iteration access)
    (small : key < 2 ^ 64)
    (found : keyOf loop group access isUnrolled = .ok expression) :
    expression.value? (words.environment tables) =
      some (UInt64.ofNat key) := by
  have listed := serves.getElem?_keys stored
  rcases ready.moment with ⟨rfl, rfl⟩ | ⟨rfl, set⟩
  · rw [keyOf, if_pos rfl, List.head?_eq_getElem?, listed] at found
    cases found
    rw [Expression.value?_number, Word.ofInt_natCast]
  · rw [keyOf, if_neg Bool.false_ne_true] at found
    cases patterned : access.keyPattern with
    | some pattern =>
      rw [patterned] at found
      cases found
      rw [pattern.value?_expression set, IndexPattern.word_of_evaluate
        (serves.keyPattern pattern patterned iteration key listed)]
    | none =>
      rw [patterned] at found
      cases found
      have bound : iteration < 2 ^ 64 :=
        Nat.lt_of_le_of_lt (serves.iteration_le stored) small
      refine Expression.value?_entry set (ready.tabled rfl patterned) ?_
      rw [Word.toNat_ofNat bound]
      exact listed

/-- The statements that make the call itself pass its key. -/
theorem runs_calling (isUnrolled : Bool) (name : String)
    {expression : Expression Symbol} {value : UInt64}
    (valued : expression.value? (words.environment tables) = some value) :
    Runs (Statement.control? tables) words
      (if isUnrolled then
        [.call name (some expression)]
      else
        [.setKey expression, .call name (some (.name .key))])
      (if isUnrolled then words else { words with key := some value })
      [.call name (some value.toNat)] := by
  cases isUnrolled with
  | true =>
    refine Runs.single ?_
    simp [Statement.control?, valued]
  | false =>
    have assigned : Statement.control? tables words (.setKey expression) =
        some ({ words with key := some value }, []) := by
      simp [Statement.control?, valued]
    exact Runs.cons assigned (Runs.single rfl)

/-- The rules of a bucket at a key take each element of the key to its
position. -/
theorem pairs_of_rules {bucket : ElementBucket}
    (within : sparsity.locations.Within (2 ^ 64))
    (serves : bucket.Serves elements sparsity.locations provided.size)
    (stored : elements.entries[iteration]? = some (key, provided)) :
    List.Forall₂ (fun element pair => pair.2 = element ∧
        sparsity.locations.At key element pair.1)
      provided.toList
      ((bucket.elements.flatMap fun element => element.rulesAt key).map
        fun rule =>
          ((rule.1.word iteration).toNat, (rule.2.word iteration).toNat)) := by
  have ranked : List.Forall₂
      (fun element (copy : ElementCopy) => ∃ target source position,
        copy.rulesAt key = [(target, source)] ∧
          sparsity.locations.At key element position ∧
          target.word iteration = UInt64.ofNat position ∧
          source.word iteration = UInt64.ofNat element)
      provided.toList bucket.elements := by
    refine List.forall₂_iff_get.mpr ⟨serves.length.symm, ?_⟩
    intro rank inside alike
    obtain ⟨position, copy, target, source, located, found, alone, targets,
      sources⟩ := serves.rule_evaluates stored rfl
        (List.getElem?_eq_getElem inside)
    obtain ⟨_, equal⟩ := List.getElem?_eq_some_iff.mp found
    refine ⟨target, source, position, ?_, located,
      IndexPattern.word_of_evaluate targets,
      IndexPattern.word_of_evaluate sources⟩
    rw [List.get_eq_getElem, equal, alone]
  generalize provided.toList = members at ranked ⊢
  generalize bucket.elements = copies at ranked ⊢
  induction ranked with
  | nil => exact .nil
  | cons first _ ih =>
    obtain ⟨target, source, position, alone, located, targets, sources⟩ :=
      first
    rw [List.flatMap_cons, alone, List.map_append]
    refine .cons ?_ ih
    dsimp only
    rw [targets, sources, Word.toNat_ofNat (located.element_lt within),
      Word.toNat_ofNat (located.position_lt within)]
    exact ⟨rfl, located⟩

/-- The copies after the call of a buffered group take each element of the key
to its position, in some order. -/
theorem copyBack_acts {copyBack : Option (Chain BucketCopies)}
    (within : sparsity.locations.Within (2 ^ 64))
    (serves : access.Serves elements sparsity.locations)
    (small : ∀ other ∈ access.keys, other < 2 ^ 64)
    (stored : elements.entries[iteration]? = some (key, provided))
    (unplaced : access.start = none)
    (made : access.copyBack isUnrolled = .ok copyBack)
    (moment : words.IsAt isUnrolled iteration)
    (set : access.keys = [key] ∨ words.key = some (UInt64.ofNat key)) :
    ∃ copied pairs : List (Nat × Nat),
      Runs (Statement.control? tables) words
        (copyBack.toList.map .copyBack) words
        (copied.map fun (target, source) => .add target source) ∧
      copied.Perm pairs ∧
      List.Forall₂ (fun element pair => pair.2 = element ∧
        sparsity.locations.At key element pair.1)
        provided.toList pairs := by
  have reached : ∀ other ∈ access.keys,
      other ≤ IterationRange.unbounded := fun other member =>
    Nat.le_of_lt_succ (small other member)
  have recorded : elements.get? key = some provided :=
    IndexMap.get?_eq_some_iff.mpr (List.mem_of_getElem? stored)
  obtain ⟨bucket, chosen, found, after, permuted⟩ :=
    serves.copiesAfter (words.environment tables) unplaced made reached
      recorded set
  obtain ⟨copied, acted, ordered⟩ :=
    Copy.mapM_action?_of_perm tables permuted moment
  refine ⟨copied, _, ?_, ordered,
    pairs_of_rules within (serves.serves _ bucket found) stored⟩
  cases copyBack with
  | none =>
    cases after
    rw [← Option.some.inj acted]
    exact Runs.nil words
  | some chain =>
    refine Runs.single ?_
    simp [Statement.control?, after, acted]

/-- The index variables after a call with a key. -/
def after (words : Words) (isUnrolled : Bool) (value : UInt64) : Words :=
  if isUnrolled then words else { words with key := some value }

theorem after_iteration (words : Words) (isUnrolled : Bool)
    (value : UInt64) :
    (after words isUnrolled value).iteration = words.iteration := by
  cases isUnrolled <;> rfl

theorem runs_statements (options : Options) (naming : GroupNaming)
    (scratchSize : Nat) (isUnrolled : Bool) (call : GroupCall)
    {pointer : Action} {adds : List Action} {value : UInt64}
    (pointed : call.destination.action? (words.environment tables) =
      some pointer)
    (valued : call.key.value? (words.environment tables) = some value)
    (copied : Runs (Statement.control? tables)
      (after words isUnrolled value) (call.copyBack.toList.map .copyBack)
      (after words isUnrolled value) adds) :
    Runs (Statement.control? tables) words
      (call.statements options naming scratchSize isUnrolled)
      (after words isUnrolled value)
      ((if call.setsPointer then [pointer] else []) ++
        (if call.destination = .scratch then
          [.clear .scratch scratchSize] else []) ++
        [.call (naming options.modelName call.loop call.group)
          (some value.toNat)] ++ adds) := by
  obtain ⟨loop, group, destination, setsPointer, key, copyBack⟩ := call
  have pointing := Destination.runs_point setsPointer pointed
  have clearing : Runs (Statement.control? tables) words
      (destination.clearing scratchSize) words
      (if destination = .scratch then
        [.clear .scratch scratchSize] else []) := by
    cases destination with
    | result position => exact Runs.nil words
    | scratch => exact Runs.single rfl
  have calling := runs_calling isUnrolled
    (naming options.modelName loop group) valued
  have blank : Runs (Statement.control? tables)
      (after words isUnrolled value) [.blank]
      (after words isUnrolled value) [] :=
    Runs.single rfl
  have run := (((pointing.append clearing).append calling).append
    copied).append blank
  rw [List.append_nil] at run
  exact run

/-- A call in place stores the elements of its key from the first one's
position on. -/
theorem runs_inPlace (options : Options) (naming : GroupNaming)
    (scratchSize : Nat) (within : sparsity.locations.Within (2 ^ 64))
    (serves : access.Serves elements sparsity.locations)
    (stored : elements.entries[iteration]? = some (key, provided))
    (moment : words.IsAt isUnrolled iteration) (bounded : key < 2 ^ 64)
    (verified : sparsity.Verifies key provided)
    {start : IndexPattern} (placed : access.start = some start)
    {expression : Expression Symbol}
    (valued : expression.value? (words.environment tables) =
      some (UInt64.ofNat key)) :
    ∃ invocation : Invocation,
      Runs (Statement.control? tables) words
        (statements options naming scratchSize isUnrolled
          ⟨loop, group, .result (start.current isUnrolled), true,
            expression, none⟩)
        (after words isUnrolled (UInt64.ofNat key)) invocation.actions ∧
      invocation.OfKey options naming sparsity scratchSize
        ⟨loop, group, key, provided⟩ ∧
      invocation.IsPointed atScratch ∧ invocation.place.isNone = false := by
  obtain ⟨_, ordered⟩ := serves.inPlace start placed
  obtain ⟨origin, value, origins⟩ := ordered iteration key provided stored
  have originSmall : origin < 2 ^ 64 :=
    (Locations.orderedStart_eq_ok origins).1.position_lt within
  have pointed : Destination.action? (words.environment tables)
      (.result (start.current isUnrolled)) =
        some (.point .result origin) := by
    simp [Destination.action?, start.value?_current moment,
      IndexPattern.word_of_evaluate value, Word.toNat_ofNat originSmall]
  have run := runs_statements options naming scratchSize isUnrolled
    ⟨loop, group, .result (start.current isUnrolled), true, expression,
      none⟩ pointed valued (Runs.nil _)
  rw [Word.toNat_ofNat bounded] at run
  exact ⟨⟨naming options.modelName loop group, some key, some origin,
    true, none, []⟩, run,
    ⟨rfl, rfl, .inl ⟨origin, verified, origins, rfl, rfl, rfl⟩⟩,
    .inl rfl, rfl⟩

/-- A call into the scratch buffer clears it before and copies from it
afterwards.  The pointer is set unless it already points there. -/
theorem runs_buffered (options : Options) (naming : GroupNaming)
    (within : sparsity.locations.Within (2 ^ 64))
    (serves : access.Serves elements sparsity.locations)
    (small : ∀ other ∈ access.keys, other < 2 ^ 64)
    (fits : sparsity.locations.WidthWithin key scratchSize)
    (stored : elements.entries[iteration]? = some (key, provided))
    (ready : Ready tables words isUnrolled loop group iteration access)
    (unplaced : access.start = none)
    {copyBack : Option (Chain BucketCopies)}
    (copying : access.copyBack isUnrolled = .ok copyBack)
    {expression : Expression Symbol}
    (valued : expression.value? (words.environment tables) =
      some (UInt64.ofNat key)) :
    ∃ invocation : Invocation,
      Runs (Statement.control? tables) words
        (statements options naming scratchSize isUnrolled
          ⟨loop, group, .scratch, !atScratch, expression, copyBack⟩)
        (after words isUnrolled (UInt64.ofNat key)) invocation.actions ∧
      invocation.OfKey options naming sparsity scratchSize
        ⟨loop, group, key, provided⟩ ∧
      invocation.IsPointed atScratch ∧ invocation.place.isNone = true := by
  have listed := serves.getElem?_keys stored
  have set : access.keys = [key] ∨
      (after words isUnrolled (UInt64.ofNat key)).key =
        some (UInt64.ofNat key) := by
    rcases ready.moment with ⟨rfl, rfl⟩ | ⟨rfl, _⟩
    · obtain ⟨only, single⟩ :=
        List.length_eq_one_iff.mp (ready.single rfl)
      rw [single] at listed
      cases listed
      exact .inl single
    · exact .inr rfl
  have moment : (after words isUnrolled (UInt64.ofNat key)).IsAt
      isUnrolled iteration := by
    rw [Words.IsAt, after_iteration]
    exact ready.moment
  obtain ⟨copied, pairs, copies, permuted, related⟩ :=
    copyBack_acts within serves small stored unplaced copying moment set
  have inside : ∀ element ∈ provided, element < scratchSize := by
    intro element member
    obtain ⟨pair, _, _, located⟩ := exists_right_of_mem related member
    exact located.element_lt_width fits
  have pointed : Destination.scratch.action? (words.environment tables) =
      some (.point .scratch 0) := rfl
  have run := runs_statements options naming scratchSize isUnrolled
    ⟨loop, group, .scratch, !atScratch, expression, copyBack⟩ pointed
    valued copies
  rw [Word.toNat_ofNat (small key (List.mem_of_getElem? listed))] at run
  refine ⟨⟨naming options.modelName loop group, some key, none,
    !atScratch, some scratchSize, copied⟩, run, ⟨rfl, rfl,
      .inr ⟨pairs, rfl, rfl, inside, related, permuted⟩⟩, ?_, rfl⟩
  cases atScratch with
  | false => exact .inl rfl
  | true => exact .inr ⟨rfl, rfl⟩

/-- A made call of a group function runs as an invocation of it. -/
theorem make_runs (options : Options) (naming : GroupNaming)
    (scratchSize : Nat) (within : sparsity.locations.Within (2 ^ 64))
    (serves : access.Serves elements sparsity.locations)
    (small : ∀ other ∈ access.keys, other < 2 ^ 64)
    (wide : access.start = none →
      ∀ other ∈ access.keys,
        sparsity.locations.WidthWithin other scratchSize)
    (stored : elements.entries[iteration]? = some (key, provided))
    (verified : ∀ start, access.start = some start →
      sparsity.Verifies key provided)
    (ready : Ready tables words isUnrolled loop group iteration access)
    (made : make isUnrolled atScratch loop group access = .ok call) :
    ∃ (invocation : Invocation) (later : Words),
      Runs (Statement.control? tables) words
        (call.statements options naming scratchSize isUnrolled) later
        invocation.actions ∧
      later.iteration = words.iteration ∧
      invocation.OfKey options naming sparsity scratchSize
        ⟨loop, group, key, provided⟩ ∧
      invocation.IsPointed atScratch ∧
      (call.destination == .scratch) = invocation.place.isNone := by
  have member := List.mem_of_getElem? (serves.getElem?_keys stored)
  have bounded := small key member
  rw [make, bind_eq_ok_iff] at made
  obtain ⟨expression, found, made⟩ := made
  have valued := keyOf_value serves stored ready bounded found
  have moved := after_iteration words isUnrolled (UInt64.ofNat key)
  cases placed : access.start with
  | some start =>
    rw [placed] at made
    cases made
    obtain ⟨invocation, run, ofKey, pointed, place⟩ :=
      runs_inPlace options naming scratchSize within serves stored
        ready.moment bounded (verified start placed) placed valued
    exact ⟨invocation, _, run, moved, ofKey, pointed, place.symm⟩
  | none =>
    rw [placed, bind_eq_ok_iff] at made
    obtain ⟨copyBack, copying, equal⟩ := made
    cases equal
    obtain ⟨invocation, run, ofKey, pointed, place⟩ :=
      runs_buffered options naming within serves small
        (wide placed key member) stored ready placed copying valued
    exact ⟨invocation, _, run, moved, ofKey, pointed, place.symm⟩

end GroupCall

end SparseLoop
