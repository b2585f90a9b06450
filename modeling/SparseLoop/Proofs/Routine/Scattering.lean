import SparseLoop.Proofs.Routine.CopyRun
import SparseLoop.Proofs.Routine.Invocation

/-!
# The scratch buffer is scattered into the result

A divided group whose calls do not write in place copies the scratch buffer
back after each call, in the counted loop over its keys.  At each local
iteration the copies made are exactly one for each element of the bucket of the
key, between the places that the element's rule gives there.  The lines that are
written for the copies, read and run as they stand, make the same ones.

Elements of a bucket share an if/else construct exactly if they have the same
partition of keys into two or more sections.  Sections that leave nothing to be
tested need no construct.
-/

namespace SparseLoop

open Traversal

/-- The names of variables are identifiers. -/
structure Options.HasIdentifiers (options : Options) : Prop where
  iteration : IsIdentifier options.iterationName
  key : IsIdentifier options.keyName
  result : IsIdentifier options.resultName

namespace Copy

variable {options : Options} {copies : List Copy}

section OfRule

variable {environment : Environment String} {iteration : Nat}
  (set : (options.environment environment).word .iteration =
    some (UInt64.ofNat iteration)) (rule : IndexPattern × IndexPattern)
include set

/-- The copy along a rule can be made at each local iteration. -/
theorem ofRule_isMade (names : options.HasIdentifiers) :
    (ofRule false rule).IsMade options environment where
  readable := ofPatterns_isReadable false rule.1 rule.2 names.iteration
  target := ⟨_, rule.1.value?_expression set⟩
  source := ⟨_, rule.2.value?_expression set⟩

/-- The copy along a rule joins the values of the rule. -/
theorem places_ofRule :
    (ofRule false rule).places (options.environment environment) =
      ((rule.1.word iteration).toNat, (rule.2.word iteration).toNat) :=
  (action?_eq (rule.1.value?_expression set)
    (rule.2.value?_expression set)).2

end OfRule

/-- No construct begins in the lines of copies. -/
theorem countP_opens_written (named : IsIdentifier options.resultName)
    (readable : ∀ copy ∈ copies, copy.IsReadable options) (depth : Nat) :
    (copies.map (written options depth)).countP
      (CopyLine.opens options.resultName) = 0 := by
  rw [List.countP_eq_zero]
  intro line listed
  obtain ⟨copy, among, rfl⟩ := List.mem_map.mp listed
  rw [CopyLine.opens, (readable copy among).read?_written named]
  exact Bool.false_ne_true

end Copy

namespace Chain

variable {α : Type} {chain : Chain α} {options : Options}
  {bodyLines : Nat → α → List String}

/-- A chain with a guard is written as an if/else construct. -/
def isConstruct (chain : Chain α) : Bool :=
  !chain.guarded.isEmpty

section Lines

variable (identifier : IsIdentifier options.keyName)
include identifier

/-- No construct begins in the later branches of a construct, apart from those
in their bodies. -/
theorem countP_opens_writtenFrom
    {guarded : List (List IterationRange × α)} {last : α}
    (guards : ∀ branch ∈ guarded, branch.1 ≠ [])
    (bare : ∀ body ∈ guarded.map (·.2) ++ [last], ∀ depth,
      (bodyLines depth body).countP
        (CopyLine.opens options.resultName) = 0)
    (depth : Nat) :
    (writtenFrom options.keyName bodyLines depth (some last)
      "\x7d else if(" guarded).countP
        (CopyLine.opens options.resultName) = 0 := by
  induction guarded with
  | nil =>
    simp [writtenFrom, CopyLine.opens, CopyLine.read?_last,
      CopyLine.read?_closing, bare last]
  | cons branch rest ih =>
    obtain ⟨condition, found⟩ := IterationRange.exists_guard?
      (guards branch List.mem_cons_self) Symbol.key
    have later := ih
      (fun other among => guards other (List.mem_cons_of_mem _ among))
      fun body among => bare body (List.mem_cons_of_mem _ among)
    simp [writtenFrom, CopyLine.opens, CopyLine.read?_alternative
      (read?_guardText identifier found), bare branch.2, later]

/-- Exactly one construct begins in the lines of a chain with a guard, and none
in those of a chain without. -/
theorem countP_opens_written (tested : chain.IsGuarded)
    (bare : ∀ body ∈ chain.bodies, ∀ depth,
      (bodyLines depth body).countP
        (CopyLine.opens options.resultName) = 0)
    (depth : Nat) :
    (chain.written options.keyName bodyLines depth).countP
        (CopyLine.opens options.resultName) =
      if chain.isConstruct then 1 else 0 := by
  obtain ⟨⟨last, closes⟩, guards⟩ := tested
  obtain ⟨guarded, otherwise⟩ := chain
  cases closes
  cases guarded with
  | nil => exact bare last (by simp [bodies]) depth
  | cons branch rest =>
    obtain ⟨condition, found⟩ := IterationRange.exists_guard?
      (guards branch List.mem_cons_self) Symbol.key
    have later := countP_opens_writtenFrom identifier
      (fun other among => guards other (List.mem_cons_of_mem _ among))
      (fun body among => bare body (List.mem_cons_of_mem _ among)) depth
    have here := bare branch.2 (by simp [bodies]) (depth + 1)
    simp [written_cons, writtenFrom, CopyLine.opens, CopyLine.read?_opening
      (read?_guardText identifier found), here, later, isConstruct]

end Lines

/-- A made chain is a construct exactly if it has two branches or more. -/
theorem isConstruct_ofBranches {lastKey : Nat} {spare : IndexSet}
    {branches : List (IndexSet × α)}
    (made : ofBranches lastKey spare branches = .ok chain) :
    chain.isConstruct = true ↔ 2 ≤ branches.length := by
  have counted := (bodies_ofBranches made).2
  rw [isConstruct, Bool.not_eq_true', ← Bool.not_eq_true,
    List.isEmpty_iff_length_eq_zero, counted]
  omega

end Chain

namespace BucketCopies

variable {isUnrolled : Bool} {lastKey : Nat} {bucket : ElementBucket}
  {shapes : List BranchShape} {copies : BucketCopies}

/-- The if/else constructs of a bucket: one for each partition of its elements
into two or more sections, whose branches hold the copies of all elements with
this partition.  The shape of an element stands for its partition. -/
structure Shares (isUnrolled : Bool) (bucket : ElementBucket)
    (shapes : List BranchShape) (copies : BucketCopies) : Prop where
  distinct : shapes.Nodup
  occurs : ∀ shape, shape ∈ shapes ↔
    ∃ element ∈ bucket.sectioned,
      2 ≤ element.sections.length ∧ element.shape = shape
  partition : ∀ element ∈ bucket.sectioned, ∀ other ∈ bucket.sectioned,
    (element.shape = other.shape ↔
      ∀ keys, (∃ part ∈ element.sections, part.keys = keys) ↔
        ∃ part ∈ other.sections, part.keys = keys)
  constructs : List.Forall₂ (fun (shape : BranchShape) chain =>
      chain.bodies = shape.values.map
        (sharedCopies isUnrolled bucket.sectioned shape))
    shapes (copies.sectioned.filter (·.isConstruct))

/-- The shapes with two or more branches are those of the constructs. -/
theorem Arranges.shares
    (arranges : Arranges isUnrolled lastKey bucket shapes copies)
    (divided : bucket.IsDivided) :
    Shares isUnrolled bucket
      (shapes.filter fun shape => 2 ≤ shape.values.length) copies where
  distinct := arranges.distinct.filter _
  occurs shape := by
    have counted : ∀ element ∈ bucket.sectioned,
        element.shape.values.length = element.sections.length := by
      intro element sectioned
      rw [(ElementCopy.shape_values_perm
        (divided.partition element sectioned)).length_eq, List.length_map]
    rw [List.mem_filter, arranges.occurs, decide_eq_true_eq]
    constructor
    · rintro ⟨⟨element, sectioned, rfl⟩, several⟩
      rw [counted element sectioned] at several
      exact ⟨element, sectioned, several, rfl⟩
    · rintro ⟨element, sectioned, several, rfl⟩
      rw [counted element sectioned]
      exact ⟨⟨element, sectioned, rfl⟩, several⟩
  partition element sectioned other alike :=
    ElementCopy.shape_eq_iff (divided.partition element sectioned)
      (divided.partition other alike)
  constructs := by
    have related : List.Forall₂ (fun (shape : BranchShape) chain =>
        (2 ≤ shape.values.length ↔ chain.isConstruct = true) ∧
          chain.bodies = shape.values.map
            (sharedCopies isUnrolled bucket.sectioned shape))
        shapes copies.sectioned := by
      refine arranges.sectioned.imp fun shape chain made => ?_
      rw [Chain.isConstruct_ofBranches made, List.length_map,
        (Chain.bodies_ofBranches made).1, List.map_map]
      exact ⟨Iff.rfl, rfl⟩
    have chosen := List.rel_filter
      (p := fun shape : BranchShape => 2 ≤ shape.values.length)
      (q := fun chain : Chain (List Copy) => chain.isConstruct)
      (fun _ _ both => decide_eq_true_iff.trans both.1) related
    exact chosen.imp fun _ _ both => both.2

/-- The copies of a divided bucket with keys are those along rules. -/
theorem Arranges.isMadeOf
    (arranges : Arranges isUnrolled lastKey bucket shapes copies)
    (divided : bucket.IsDivided) (inhabited : ∃ key, key ∈ bucket.keys) :
    copies.IsMadeOf fun copy => ∃ rule, copy = Copy.ofRule isUnrolled rule := by
  obtain ⟨key, member⟩ := inhabited
  have chained : ∀ chain ∈ copies.sectioned, ∃ shape ∈ shapes,
      Chain.ofBranches lastKey
        ((IndexSet.below (lastKey + 1)).filter (!bucket.keys.contains ·))
        (shape.values.map fun keys =>
          (keys, sharedCopies isUnrolled bucket.sectioned shape keys)) =
        .ok chain := by
    intro chain listed
    obtain ⟨shape, among, made⟩ :=
      exists_left_of_mem arranges.sectioned listed
    exact ⟨shape, among, made⟩
  refine ⟨?_, ?_, ?_⟩
  · intro copy among
    rw [arranges.direct] at among
    obtain ⟨rule, _, rfl⟩ := List.mem_map.mp among
    exact ⟨rule, rfl⟩
  · intro chain listed
    obtain ⟨shape, among, made⟩ := chained chain listed
    obtain ⟨element, present, rfl⟩ := (arranges.occurs shape).mp among
    obtain ⟨part, known, _⟩ := divided.covered element present key member
    have branch : part.keys ∈ element.shape.values :=
      (ElementCopy.mem_shape_values
        (divided.partition element present)).mpr ⟨part, known, rfl⟩
    refine Chain.ofBranches_isGuarded made ?_
    exact List.ne_nil_of_mem (List.mem_map_of_mem branch)
  · intro chain listed body among copy inside
    obtain ⟨shape, _, made⟩ := chained chain listed
    rw [(Chain.bodies_ofBranches made).1, List.map_map] at among
    obtain ⟨keys, _, rfl⟩ := List.mem_map.mp among
    obtain ⟨element, _, copied⟩ := List.mem_flatMap.mp inside
    obtain ⟨part, _, rfl⟩ := List.mem_map.mp copied
    exact ⟨(part.target, part.source), rfl⟩

/-- One construct begins in the lines of a bucket for each chain with a
guard. -/
theorem countP_opens_written {options : Options}
    (identifier : IsIdentifier options.keyName)
    (named : IsIdentifier options.resultName)
    (readable : copies.IsMadeOf (Copy.IsReadable options)) (depth : Nat) :
    (copies.written options depth).countP
        (CopyLine.opens options.resultName) =
      (copies.sectioned.filter (·.isConstruct)).length := by
  obtain ⟨direct, guarded, sectioned⟩ := readable
  rw [written, List.countP_append,
    Copy.countP_opens_written named direct, Nat.zero_add]
  generalize copies.sectioned = chains at guarded sectioned ⊢
  induction chains with
  | nil => rfl
  | cons chain rest ih =>
    have here := Chain.countP_opens_written identifier
      (guarded chain List.mem_cons_self)
      (fun body among inner => Copy.countP_opens_written named
        (sectioned chain List.mem_cons_self body among) inner) depth
    have others := ih
      (fun other among => guarded other (List.mem_cons_of_mem _ among))
      fun other among => sectioned other (List.mem_cons_of_mem _ among)
    rw [List.flatMap_cons, List.countP_append, here, others,
      List.filter_cons]
    split
    · rw [List.length_cons, Nat.add_comm]
    · rw [Nat.zero_add]

end BucketCopies

namespace GroupAccess

variable {access : GroupAccess}

/-- The chain over the buckets of a divided group is guarded.  Its bodies are the
copies of the buckets: they are those along rules, and they share their
constructs. -/
theorem IsDivided.exists_chain (divided : access.IsDivided)
    (isUnrolled : Bool) (inhabited : access.keys ≠ []) :
    ∃ chain, access.copyBack isUnrolled = .ok (some chain) ∧
      chain.IsGuarded ∧
      List.Forall₂ (fun (bucket : ElementBucket) copies =>
          copies.IsMadeOf (fun copy =>
            ∃ rule, copy = Copy.ofRule isUnrolled rule) ∧
          ∃ shapes, BucketCopies.Shares isUnrolled bucket shapes copies)
        access.buckets.values chain.bodies := by
  have last := List.getLast?_eq_some_getLast inhabited
  obtain ⟨branches, chain, made, chained, related⟩ :=
    divided.copyBack_eq_ok isUnrolled last
  have occupied : branches ≠ [] := by
    obtain ⟨bucket, listed, _⟩ :=
      divided.covered _ (List.mem_of_getLast? last)
    rw [← List.length_pos_iff, ← related.length_eq, List.length_pos_iff]
    exact List.ne_nil_of_mem listed
  refine ⟨chain, made, Chain.ofBranches_isGuarded chained occupied, ?_⟩
  rw [(Chain.bodies_ofBranches chained).1, List.forall₂_map_right_iff]
  refine List.forall₂_iff_zip.mpr ⟨related.length_eq, ?_⟩
  intro bucket branch among
  obtain ⟨_, shapes, arranges⟩ := (List.forall₂_iff_zip.mp related).2 among
  have listed := (List.of_mem_zip among).1
  have bucketDivided := divided.divided bucket listed
  exact ⟨arranges.isMadeOf bucketDivided (divided.inhabited bucket listed),
    _, arranges.shares bucketDivided⟩

/-- At a key, the copies along the rules of the elements of its bucket run
wherever the key variable holds the key. -/
theorem IsDivided.exists_rules_at (divided : access.IsDivided)
    (representable : access.IsRepresentable) {isUnrolled : Bool}
    {chain : Chain BucketCopies}
    (made : access.copyBack isUnrolled = .ok (some chain)) {key : Nat}
    (present : key ∈ access.keys) :
    ∃ bucket ∈ access.buckets.values, ∃ rules, key ∈ bucket.keys ∧
      List.Forall₂ (fun (element : ElementCopy) rule =>
        element.RuleAt key rule) bucket.elements rules ∧
      ∀ environment : Environment Symbol,
        environment.word .key = some (UInt64.ofNat key) →
        ∃ chosen, copiesAfter? environment (some chain) = some chosen ∧
          chosen.Perm (rules.map (Copy.ofRule isUnrolled)) := by
  obtain ⟨bucket, listed, member⟩ := divided.covered key present
  obtain ⟨rules, ruled⟩ :=
    (divided.divided bucket listed).exists_rules member
  refine ⟨bucket, listed, rules, member, ruled, fun environment set => ?_⟩
  obtain ⟨_, chosen, remade, runs, permuted⟩ :=
    divided.copiesAfter representable environment isUnrolled (.inr set)
      present listed member ruled
  rw [made, Except.ok.injEq, Option.some.injEq] at remade
  subst remade
  exact ⟨chosen, runs, permuted⟩

/-- The lines that copy back make the copies after a call. -/
theorem makes_lines {chain : Chain BucketCopies} (guarded : chain.IsGuarded)
    (ruled : ∀ copies ∈ chain.bodies, copies.IsMadeOf fun copy =>
      ∃ rule, copy = Copy.ofRule false rule)
    {options : Options} {environment : Environment String}
    {iteration : Nat} (names : options.HasIdentifiers)
    (set : (options.environment environment).word .iteration =
      some (UInt64.ofNat iteration)) {chosen : List Copy}
    (found : copiesAfter? (options.environment environment) (some chain) =
      some chosen) (depth : Nat) :
    CopyRun.Makes options.resultName environment
      (chain.lines options.keyName (BucketCopies.lines options) depth)
      (chosen.map (Copy.places (options.environment environment))) := by
  rw [copiesAfter?, Option.bind_eq_bind, Option.bind_eq_some_iff] at found
  obtain ⟨taken, tested, found⟩ := found
  obtain ⟨copies, among, rfl⟩ := guarded.exists_of_taken? tested
  have made : ∀ copies ∈ chain.bodies,
      copies.IsMadeOf (Copy.IsMade options environment) := by
    refine fun copies among => (ruled copies among).mono ?_
    rintro _ ⟨rule, rfl⟩
    exact Copy.ofRule_isMade set rule names
  have readable : ∀ copies ∈ chain.bodies,
      copies.IsMadeOf (Copy.IsReadable options) :=
    fun copies among => (made copies among).mono fun _ holds =>
      holds.readable
  rw [Chain.lines_copies_eq_written]
  exact Chain.makes_written names.key guarded
    (fun copies among => BucketCopies.skips_written names.key names.result
      (readable copies among))
    tested
    (BucketCopies.makes_written names.key names.result (made copies among)
      found) depth

section Copied

variable {chain : Chain BucketCopies} {chosen : List Copy}
  {rules : List (IndexPattern × IndexPattern)} {iteration : Nat}

/-- The statement of a copy-back adds up what the rules of the chosen copies
name. -/
theorem exists_control_of_chosen (tables : List KeyTable) (key : Nat)
    (found : copiesAfter? (Words.environment tables
      ⟨some (.ofNat iteration), some (.ofNat key)⟩) (some chain) =
        some chosen)
    (permuted : chosen.Perm (rules.map (Copy.ofRule false))) :
    ∃ actions,
      Statement.control? tables
          ⟨some (.ofNat iteration), some (.ofNat key)⟩ (.copyBack chain) =
        some (⟨some (.ofNat iteration), some (.ofNat key)⟩, actions) ∧
      actions.Perm (rules.map fun rule =>
        .add (rule.1.word iteration).toNat
          (rule.2.word iteration).toNat) := by
  have moment : Words.IsAt
      ⟨some (.ofNat iteration), some (.ofNat key)⟩ false iteration :=
    .inr ⟨rfl, rfl⟩
  obtain ⟨pairs, acted, ordered⟩ :=
    Copy.mapM_action?_of_perm tables permuted moment
  refine ⟨pairs.map fun pair => .add pair.1 pair.2, ?_, ?_⟩
  · simp [Statement.control?, found, acted]
  · refine (ordered.map _).trans (List.Perm.of_eq ?_)
    rw [List.map_map]
    rfl

/-- The lines of a copy-back make the copies that the rules of the chosen ones
name. -/
theorem exists_copies_of_chosen (guarded : chain.IsGuarded)
    (ruled : ∀ copies ∈ chain.bodies, copies.IsMadeOf fun copy =>
      ∃ rule, copy = Copy.ofRule false rule)
    {options : Options} {environment : Environment String}
    (names : options.HasIdentifiers)
    (set : (options.environment environment).word .iteration =
      some (UInt64.ofNat iteration))
    (found : copiesAfter? (options.environment environment) (some chain) =
      some chosen)
    (permuted : chosen.Perm (rules.map (Copy.ofRule false))) (depth : Nat) :
    ∃ copies,
      CopyRun.copiesOf? options.resultName environment
        (chain.lines options.keyName (BucketCopies.lines options) depth) =
          some copies ∧
      copies.Perm (rules.map fun rule =>
        ((rule.1.word iteration).toNat, (rule.2.word iteration).toNat)) := by
  refine ⟨_, (makes_lines guarded ruled names set found depth).copiesOf?, ?_⟩
  refine (permuted.map _).trans (List.Perm.of_eq ?_)
  rw [List.map_map]
  exact List.map_congr_left fun rule _ => Copy.places_ofRule set rule

end Copied

/-- A divided group can be copied back.  At each local iteration of its counted
loop, with the key variable at the key of this iteration, the copy-back makes
one copy for each element of the bucket of the key, along the element's rule,
and no other.  So does the text that it is written as, whatever the names of the
variables are.  In each bucket there is one if/else construct for each partition
into two or more sections, and that many constructs begin in its lines. -/
theorem copyBack_scatters (access : GroupAccess)
    (representable : access.IsRepresentable) (divided : access.IsDivided) :
    ∃ copyBack, access.copyBack false = .ok copyBack ∧
      (∀ (tables : List KeyTable) (iteration key : Nat) (words : Words),
        access.keys[iteration]? = some key →
        words = ⟨some (.ofNat iteration), some (.ofNat key)⟩ →
        ∃ bucket ∈ access.buckets.values, ∃ rules chain actions,
          key ∈ bucket.keys ∧
          List.Forall₂ (fun (element : ElementCopy) rule =>
            element.RuleAt key rule) bucket.elements rules ∧
          copyBack = some chain ∧
          Statement.control? tables words (.copyBack chain) =
            some (words, actions) ∧
          actions.Perm (rules.map fun rule =>
            .add (rule.1.word iteration).toNat
              (rule.2.word iteration).toNat) ∧
          ∀ (options : Options) (depth : Nat)
            (environment : Environment String),
            options.HasIdentifiers →
            environment.word options.iterationName =
              some (.ofNat iteration) →
            environment.word options.keyName = some (.ofNat key) →
            ∃ copies,
              CopyRun.copiesOf? options.resultName environment
                (chain.lines options.keyName (BucketCopies.lines options)
                  depth) = some copies ∧
              copies.Perm (rules.map fun rule =>
                ((rule.1.word iteration).toNat,
                  (rule.2.word iteration).toNat))) ∧
      (access.keys ≠ [] → ∃ chain, copyBack = some chain ∧
        (∀ (options : Options) (depth : Nat),
          chain.lines options.keyName (BucketCopies.lines options) depth =
            chain.written options.keyName (BucketCopies.written options)
              depth) ∧
        List.Forall₂ (fun (bucket : ElementBucket) copies =>
            ∃ shapes, BucketCopies.Shares false bucket shapes copies ∧
              ∀ (options : Options) (depth : Nat), options.HasIdentifiers →
                (copies.written options depth).countP
                  (CopyLine.opens options.resultName) = shapes.length)
          access.buckets.values chain.bodies) := by
  by_cases inhabited : access.keys = []
  · refine ⟨none, ?_, ?_, fun filled => absurd inhabited filled⟩
    · simp [GroupAccess.copyBack, inhabited, pure, Except.pure]
    · intro tables iteration key words located
      simp [inhabited] at located
  · obtain ⟨chain, made, guarded, related⟩ :=
      divided.exists_chain false inhabited
    have ruled : ∀ copies ∈ chain.bodies, copies.IsMadeOf fun copy =>
        ∃ rule, copy = Copy.ofRule false rule := by
      intro copies among
      obtain ⟨_, _, madeOf, _⟩ := exists_left_of_mem related among
      exact madeOf
    refine ⟨some chain, made, ?_, fun _ => ⟨chain, rfl, fun options depth =>
      Chain.lines_copies_eq_written options depth chain, ?_⟩⟩
    · rintro tables iteration key words located rfl
      obtain ⟨bucket, listed, rules, member, obeyed, copied⟩ :=
        divided.exists_rules_at representable made
          (List.mem_of_getElem? located)
      obtain ⟨chosen, found, permuted⟩ := copied (Words.environment tables
        ⟨some (.ofNat iteration), some (.ofNat key)⟩) rfl
      obtain ⟨actions, controlled, added⟩ :=
        exists_control_of_chosen tables key found permuted
      refine ⟨bucket, listed, rules, chain, actions, member, obeyed, rfl,
        controlled, added, ?_⟩
      intro options depth environment names set setKey
      obtain ⟨chosen, found, permuted⟩ :=
        copied (options.environment environment) setKey
      exact exists_copies_of_chosen guarded ruled names set found permuted
        depth
    · refine related.imp fun bucket copies both => ?_
      obtain ⟨madeOf, shapes, shares⟩ := both
      refine ⟨shapes, shares, fun options depth names => ?_⟩
      have readable : copies.IsMadeOf (Copy.IsReadable options) := by
        refine madeOf.mono ?_
        rintro _ ⟨rule, rfl⟩
        exact Copy.ofPatterns_isReadable false rule.1 rule.2 names.iteration
      rw [BucketCopies.countP_opens_written names.key names.result readable,
        shares.constructs.length_eq]

/-- Two buckets with interleaved keys.  The first has one direct element; the
two elements of the second have one section for each of their keys. -/
def interleaved : GroupAccess where
  keys := [1, 2, 4, 5, 7]
  keyPattern := none
  start := none
  buckets := IndexMap.ofList
    [ (1,
        { keys := IndexSet.ofList [1, 4, 7]
          elements := [⟨some ⟨3, 1⟩, some ⟨0, 0⟩, []⟩] }),
      (2,
        { keys := IndexSet.ofList [2, 5]
          elements :=
            [ ⟨none, none,
                [ ⟨IndexSet.ofList [2], ⟨0, 8⟩, ⟨0, 0⟩⟩,
                  ⟨IndexSet.ofList [5], ⟨0, 20⟩, ⟨0, 1⟩⟩ ]⟩,
              ⟨none, none,
                [ ⟨IndexSet.ofList [2], ⟨0, 9⟩, ⟨0, 1⟩⟩,
                  ⟨IndexSet.ofList [5], ⟨0, 30⟩, ⟨0, 0⟩⟩ ]⟩ ] }) ]

theorem interleaved_isRepresentable : interleaved.IsRepresentable where
  buckets := by decide
  sections := by decide

theorem interleaved_isDivided : interleaved.IsDivided where
  ascending := by decide
  inhabited := by
    have least : ∀ bucket ∈ interleaved.buckets.values,
        bucket.keys.toList ≠ [] := by decide
    exact fun bucket listed => List.exists_mem_of_ne_nil _ (least bucket listed)
  apart := by decide
  covered := by decide
  divided := by
    have least : ∀ bucket ∈ interleaved.buckets.values,
        ∀ element ∈ bucket.sectioned, ∀ part ∈ element.sections,
          part.keys.toList ≠ [] := by decide
    have apart : ∀ bucket ∈ interleaved.buckets.values,
        ∀ element ∈ bucket.sectioned, element.sections.Pairwise
          fun left right => ∀ key, key ∈ left.keys → key ∉ right.keys := by
      decide
    have covered : ∀ bucket ∈ interleaved.buckets.values,
        ∀ element ∈ bucket.sectioned, ∀ key ∈ bucket.keys,
          ∃ part ∈ element.sections, key ∈ part.keys := by decide
    exact fun bucket listed =>
      { partition := fun element sectioned =>
          { inhabited := fun part among => List.exists_mem_of_ne_nil _
              (least bucket listed element sectioned part among)
            apart := apart bucket listed element sectioned }
        covered := covered bucket listed }

/-- The variables in the fourth run of the loop body. -/
def fourthIteration : Environment String where
  word name :=
    if name = "it" then some 3 else if name = "j" then some 5 else none
  table _ := none

/-- At the fourth local iteration, both elements of the second bucket are
copied. -/
theorem interleaved_scatters :
    interleaved.IsRepresentable ∧ interleaved.IsDivided ∧
      ∃ chain actions, interleaved.copyBack false = .ok (some chain) ∧
        Statement.control? [] ⟨some 3, some 5⟩ (.copyBack chain) =
          some (⟨some 3, some 5⟩, actions) ∧
        actions.Perm [.add 20 1, .add 30 0] ∧
        chain.lines "j" (BucketCopies.lines {}) 2 =
          [ "      if(j == 1 || j == 4 || j == 7) \x7b",
            "         jac[3 * it + 1] += compressed[0];",
            "      \x7d else \x7b",
            "         if(j == 2) \x7b",
            "            jac[8] += compressed[0];",
            "            jac[9] += compressed[1];",
            "         \x7d else \x7b",
            "            jac[20] += compressed[1];",
            "            jac[30] += compressed[0];",
            "         \x7d",
            "      \x7d" ] ∧
        ∃ copies,
          CopyRun.copiesOf? "jac" fourthIteration
            (chain.lines "j" (BucketCopies.lines {}) 2) = some copies ∧
          copies.Perm [(20, 1), (30, 0)] := by
  refine ⟨interleaved_isRepresentable, interleaved_isDivided, ?_⟩
  obtain ⟨copyBack, made, acts, _⟩ := copyBack_scatters interleaved
    interleaved_isRepresentable interleaved_isDivided
  obtain ⟨bucket, listed, rules, chain, actions, member, ruled, rfl,
    controlled, permuted, runs⟩ := acts [] 3 5 ⟨some 3, some 5⟩ rfl rfl
  have only : ∀ bucket ∈ interleaved.buckets.values, 5 ∈ bucket.keys →
      bucket.elements.map (·.rulesAt 5) =
        [[(⟨0, 20⟩, ⟨0, 1⟩)], [(⟨0, 30⟩, ⟨0, 0⟩)]] := by
    decide
  have among : List.Forall₂ (fun listed rule => rule ∈ listed)
      (bucket.elements.map (·.rulesAt 5)) rules :=
    List.forall₂_map_left_iff.mpr
      (ruled.imp fun _ _ holds => holds.mem_rulesAt)
  rw [only bucket listed member] at among
  obtain _ | ⟨first, _ | ⟨second, _ | _⟩⟩ := among
  rw [List.mem_singleton.mp first, List.mem_singleton.mp second]
    at permuted runs
  obtain ⟨copies, copied, ordered⟩ := runs {} 2 fourthIteration
    ⟨by decide, by decide, by decide⟩ rfl rfl
  refine ⟨chain, actions, made, controlled, permuted, ?_, copies, copied,
    ordered⟩
  cases made
  rfl

end GroupAccess

end SparseLoop
