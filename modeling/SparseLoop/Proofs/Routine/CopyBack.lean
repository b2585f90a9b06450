import SparseLoop.Proofs.Routine.Chain
import SparseLoop.Proofs.Routine.Skeletons
import SparseLoop.Proofs.Sparsity.Grouping

/-!
# The copies that run at a key

Which copies of a group run depends on the key alone: the chain over the
buckets takes the bucket of the key, and of this bucket run all direct copies
and, of each chain, the body of the branch that the chain takes.

Where the buckets have keys of their own and the sections of an element divide
the keys of its bucket, `GroupAccess.IsDivided`, the copies at a key are, up to
their order, one for each element of the key's bucket: the one along the rule
that the element has at the key.
-/

namespace SparseLoop

open Traversal

/-- The copy along a rule. -/
def Copy.ofRule (isUnrolled : Bool) (rule : IndexPattern × IndexPattern) :
    Copy :=
  Copy.ofPatterns isUnrolled rule.1 rule.2

/-- The two numbers between which a copy acts. -/
def Copy.places (environment : Environment Symbol) (copy : Copy) :
    Nat × Nat :=
  (((copy.target.value? environment).getD 0).toNat,
    ((copy.source.value? environment).getD 0).toNat)

/-! ## Elements and buckets -/

/-- The rule of an element at a key: its pair of patterns if there are both, and
otherwise the patterns of a section with this key. -/
def ElementCopy.RuleAt (element : ElementCopy) (key : Nat)
    (rule : IndexPattern × IndexPattern) : Prop :=
  element.direct? = some rule ∨
    element.direct? = none ∧ ∃ part ∈ element.sections,
      key ∈ part.keys ∧ rule = (part.target, part.source)

theorem ElementCopy.RuleAt.mem_rulesAt {element : ElementCopy} {key : Nat}
    {rule : IndexPattern × IndexPattern} (ruled : element.RuleAt key rule) :
    rule ∈ element.rulesAt key := by
  rw [rulesAt, List.mem_append]
  rcases ruled with direct | ⟨_, part, among, inside, rfl⟩
  · rw [direct]
    exact .inl (List.mem_singleton_self rule)
  · exact .inr (List.mem_map.mpr ⟨part,
      List.mem_filter.mpr ⟨among, IndexSet.contains_iff.mpr inside⟩, rfl⟩)

namespace ElementBucket

open ElementSection (IsPartition)

/-- The elements of a bucket that are copied in sections. -/
def sectioned (bucket : ElementBucket) : List ElementCopy :=
  bucket.elements.filter (·.direct?.isNone)

theorem mem_sectioned {bucket : ElementBucket} {element : ElementCopy} :
    element ∈ bucket.sectioned ↔
      element ∈ bucket.elements ∧ element.direct? = none := by
  rw [sectioned, List.mem_filter, Option.isNone_iff_eq_none]

/-- A bucket is divided if the sections of each element that needs them have
keys of their own and leave out no key of the bucket. -/
structure IsDivided (bucket : ElementBucket) : Prop where
  partition : ∀ element ∈ bucket.sectioned, IsPartition element.sections
  covered : ∀ element ∈ bucket.sectioned, ∀ key ∈ bucket.keys,
    ∃ part ∈ element.sections, key ∈ part.keys

/-- Each element of a divided bucket has a rule at each key of the bucket. -/
theorem IsDivided.exists_rules {bucket : ElementBucket}
    (divided : bucket.IsDivided) {key : Nat} (member : key ∈ bucket.keys) :
    ∃ rules, List.Forall₂ (fun (element : ElementCopy) rule =>
      element.RuleAt key rule) bucket.elements rules := by
  refine exists_forall₂ fun element among => ?_
  cases direct : element.direct? with
  | some rule => exact ⟨rule, .inl direct⟩
  | none =>
    obtain ⟨part, present, inside⟩ :=
      divided.covered element (mem_sectioned.mpr ⟨among, direct⟩) key member
    exact ⟨(part.target, part.source),
      .inr ⟨direct, part, present, inside, rfl⟩⟩

/-- An element of a divided bucket has one section if no other key has a
section. -/
theorem IsDivided.length_sections {bucket : ElementBucket}
    (divided : bucket.IsDivided) {element : ElementCopy}
    (sectioned : element ∈ bucket.sectioned) {key : Nat}
    (alone : ∀ part ∈ element.sections, ∀ other ∈ part.keys, other = key)
    (member : key ∈ bucket.keys) : element.sections.length = 1 := by
  have partition := divided.partition element sectioned
  have shared : ∀ keys ∈ element.sections.map (·.keys), key ∈ keys := by
    intro keys mapped
    obtain ⟨part, among, rfl⟩ := List.mem_map.mp mapped
    obtain ⟨other, inside⟩ := partition.inhabited part among
    rw [← alone part among other inside]
    exact inside
  have atMost := IndexSet.length_le_one_of_apart
    (List.pairwise_map.mpr partition.apart) shared
  rw [List.length_map] at atMost
  obtain ⟨part, among, _⟩ := divided.covered element sectioned key member
  exact Nat.le_antisymm atMost
    (List.length_pos_iff.mpr (List.ne_nil_of_mem among))

end ElementBucket

namespace BucketCopies

open ElementSection (IsPartition)

variable {isUnrolled : Bool} {keys : IndexSet} {shape : BranchShape}
  {shapes : List BranchShape} {elements : List ElementCopy}
  {environment : Environment Symbol} {lastKey key : Nat}
  {bucket : ElementBucket} {copies : BucketCopies}
  {rules : List (IndexPattern × IndexPattern)}

/-- At a key of a branch, the elements of a shape share the copies of their
sections with this key. -/
theorem sharedCopies_eq_copiesAt
    (partitioned : ∀ element ∈ elements, IsPartition element.sections)
    (branch : keys ∈ shape.values) (inside : key ∈ keys) :
    sharedCopies isUnrolled elements shape keys =
      (elements.filter (·.shape = shape)).flatMap fun element =>
        copiesAt isUnrolled element.sections key := by
  rw [sharedCopies]
  refine List.flatMap_congr fun element chosen => ?_
  obtain ⟨among, same⟩ := List.mem_filter.mp chosen
  have partition := partitioned element among
  have known : keys ∈ element.shape.values := by
    rw [of_decide_eq_true same]
    exact branch
  exact copiesFor_eq_copiesAt partition
    ((ElementCopy.mem_shape_values partition).mp known) inside

/-- Elements taken shape by shape are all elements, in some order. -/
theorem flatMap_filter_shape_perm (distinct : shapes.Nodup)
    (known : ∀ element ∈ elements, element.shape ∈ shapes) :
    (shapes.flatMap fun shape => elements.filter (·.shape = shape)).Perm
      elements := by
  induction shapes generalizing elements with
  | nil =>
    cases elements with
    | nil => exact .nil
    | cons element rest =>
      exact absurd (known element List.mem_cons_self) List.not_mem_nil
  | cons shape rest ih =>
    obtain ⟨fresh, distinct⟩ := List.nodup_cons.mp distinct
    have others : ∀ element ∈ elements.filter fun element =>
        !decide (element.shape = shape), element.shape ∈ rest := by
      intro element chosen
      obtain ⟨among, different⟩ := List.mem_filter.mp chosen
      rcases List.mem_cons.mp (known element among) with equal | later
      · simp [equal] at different
      · exact later
    have remaining : (rest.flatMap fun other =>
        elements.filter (·.shape = other)).Perm
          (elements.filter fun element =>
            !decide (element.shape = shape)) := by
      refine (List.Perm.of_eq ?_).trans (ih distinct others)
      refine List.flatMap_congr fun other among => ?_
      have apart : other ≠ shape := fun equal => fresh (equal ▸ among)
      rw [List.filter_filter]
      refine List.filter_congr fun element _ => ?_
      by_cases same : element.shape = other
      · simp [same, apart]
      · simp [same]
    rw [List.flatMap_cons]
    exact (remaining.append_left _).trans (List.filter_append_perm _ _)

/-- What the copies of a bucket are: those of the direct elements, and one
chain for each shape of the others. -/
structure Arranges (isUnrolled : Bool) (lastKey : Nat)
    (bucket : ElementBucket) (shapes : List BranchShape)
    (copies : BucketCopies) : Prop where
  distinct : shapes.Nodup
  occurs : ∀ shape, shape ∈ shapes ↔
    ∃ element ∈ bucket.sectioned, element.shape = shape
  direct : copies.direct =
    (bucket.elements.filterMap (·.direct?)).map (Copy.ofRule isUnrolled)
  sectioned : List.Forall₂ (fun (shape : BranchShape) chain =>
    Chain.ofBranches lastKey
      ((IndexSet.below (lastKey + 1)).filter (!bucket.keys.contains ·))
      (shape.values.map fun keys =>
        (keys, sharedCopies isUnrolled bucket.sectioned shape keys)) =
      .ok chain) shapes copies.sectioned

/-- The copies of a divided bucket can be made. -/
theorem exists_ofBucket (isUnrolled : Bool) (lastKey : Nat)
    (partitioned : ∀ element ∈ bucket.sectioned,
      IsPartition element.sections) :
    ∃ shapes copies, ofBucket isUnrolled lastKey bucket = .ok copies ∧
      Arranges isUnrolled lastKey bucket shapes copies := by
  obtain ⟨shapes, skeletons, folded, gathers⟩ :=
    exists_gathers isUnrolled partitioned
  have chained : ∀ shape ∈ shapes, ∃ chain,
      Chain.ofBranches lastKey
        ((IndexSet.below (lastKey + 1)).filter (!bucket.keys.contains ·))
        (shape.values.map fun keys =>
          (keys, sharedCopies isUnrolled bucket.sectioned shape keys)) =
        .ok chain := by
    intro shape among
    obtain ⟨element, present, rfl⟩ := (gathers.occurs shape).mp among
    refine Chain.exists_ofBranches _ fun branch listed => ?_
    obtain ⟨keys, known, rfl⟩ := List.mem_map.mp listed
    exact (ElementCopy.shape_keyedByFirst
      (partitioned element present)).inhabited keys known
  obtain ⟨chains, sectioned⟩ := exists_forall₂ chained
  refine ⟨shapes, ⟨_, chains⟩, ?_, gathers.distinct, gathers.occurs, rfl,
    sectioned⟩
  have mapped : skeletons.mapM (fun skeleton =>
      Chain.ofBranches lastKey
        ((IndexSet.below (lastKey + 1)).filter (!bucket.keys.contains ·))
        (skeleton.branches.values.map fun branch =>
          (branch.iterations, branch.body))) = .ok chains := by
    rw [mapM_eq_ok_iff, gathers.skeletons, List.forall₂_map_left_iff]
    refine sectioned.imp fun shape chain made => ?_
    rw [Skeleton.values_ofBodies, List.map_map]
    exact made
  rw [ElementBucket.sectioned] at folded
  simp only [ofBucket, folded, mapped, bind, Except.bind, pure, Except.pure]
  rfl

/-- The copies that run at a moment, unless a guard gets stuck. -/
def chosen? (environment : Environment Symbol) (copies : BucketCopies) :
    Option (List Copy) := do
  let parts ← copies.sectioned.mapM (Chain.taken? environment .key)
  pure (copies.direct ++ parts.flatMap (·.getD []))

/-- The only copy of an element with a rule at a key is the one along it. -/
theorem copiesAt_of_ruleAt (isUnrolled : Bool) {element : ElementCopy}
    {rule : IndexPattern × IndexPattern}
    (partition : IsPartition element.sections)
    (missing : element.direct? = none) (ruled : element.RuleAt key rule) :
    copiesAt isUnrolled element.sections key =
      [Copy.ofRule isUnrolled rule] := by
  rcases ruled with direct | ⟨_, part, among, inside, rfl⟩
  · rw [missing] at direct
    cases direct
  · rw [copiesAt, ElementSection.filter_eq partition.apart among inside]
    rfl

/-- Direct copies and those of sections are the copies along the rules. -/
theorem rules_perm
    (partitioned : ∀ element ∈ elements, element.direct? = none →
      IsPartition element.sections)
    (ruled : List.Forall₂ (fun (element : ElementCopy) rule =>
      element.RuleAt key rule) elements rules) :
    ((elements.filterMap (·.direct?)).map (Copy.ofRule isUnrolled) ++
        (elements.filter (·.direct?.isNone)).flatMap fun element =>
          copiesAt isUnrolled element.sections key).Perm
      (rules.map (Copy.ofRule isUnrolled)) := by
  induction ruled with
  | nil => exact .nil
  | @cons element rule rest others first _ ih =>
    have remaining := ih fun other among =>
      partitioned other (List.mem_cons_of_mem _ among)
    cases direct : element.direct? with
    | some both =>
      have same : both = rule := by
        rcases first with found | ⟨missing, _⟩
        · exact Option.some.inj (direct.symm.trans found)
        · rw [missing] at direct
          cases direct
      subst same
      simp only [List.filterMap_cons, List.filter_cons, direct,
        Option.isNone_some, Bool.false_eq_true, if_false, List.map_cons]
      exact remaining.cons _
    | none =>
      have alone := copiesAt_of_ruleAt isUnrolled
        (partitioned element List.mem_cons_self direct) direct first
      simp only [List.filterMap_cons, List.filter_cons, direct,
        Option.isNone_none, if_true, List.flatMap_cons, alone,
        List.map_cons]
      exact List.perm_middle.trans (remaining.cons _)

section AtKey

variable (arranges : Arranges isUnrolled lastKey bucket shapes copies)
  (divided : bucket.IsDivided)
  (representable : ∀ element ∈ bucket.sectioned,
    ∀ part ∈ element.sections, ∀ other ∈ part.keys,
      other ≤ IterationRange.unbounded)
  (bound : key ≤ lastKey)
  (set : (∀ element ∈ bucket.sectioned, element.sections.length = 1) ∨
    environment.word .key = some (UInt64.ofNat key))
  (member : key ∈ bucket.keys)
include arranges divided representable bound set member

/-- The chain of a shape takes the copies of the sections with the key. -/
theorem Arranges.taken? {chain : Chain (List Copy)} (among : shape ∈ shapes)
    (made : Chain.ofBranches lastKey
      ((IndexSet.below (lastKey + 1)).filter (!bucket.keys.contains ·))
      (shape.values.map fun keys =>
        (keys, sharedCopies isUnrolled bucket.sectioned shape keys)) =
      .ok chain) :
    chain.taken? environment .key =
      some (some ((bucket.sectioned.filter (·.shape = shape)).flatMap
        fun element => copiesAt isUnrolled element.sections key)) := by
  obtain ⟨element, present, rfl⟩ := (arranges.occurs shape).mp among
  have partition := divided.partition element present
  have listed := ElementCopy.shape_values_perm partition
  obtain ⟨part, known, inside⟩ := divided.covered element present key member
  have branch : part.keys ∈ element.shape.values :=
    (ElementCopy.mem_shape_values partition).mpr ⟨part, known, rfl⟩
  have needed : key ∉ (IndexSet.below (lastKey + 1)).filter
      (!bucket.keys.contains ·) := by
    rw [IndexSet.mem_filter, IndexSet.contains_iff.mpr member]
    simp
  rw [← sharedCopies_eq_copiesAt divided.partition branch inside]
  refine Chain.taken?_ofBranches made ?_ ?_ ?_ bound needed ?_ inside
  · refine List.pairwise_map.mpr ?_
    refine (listed.pairwise_iff ?_).mpr
      (List.pairwise_map.mpr partition.apart)
    intro left right separate other inRight inLeft
    exact separate other inLeft inRight
  · intro pair mapped other within
    obtain ⟨keys, value, rfl⟩ := List.mem_map.mp mapped
    obtain ⟨source, amongParts, rfl⟩ :=
      (ElementCopy.mem_shape_values partition).mp value
    exact representable element present source amongParts other within
  · refine set.imp_left fun single => ?_
    rw [List.length_map, listed.length_eq, List.length_map]
    exact single element present
  · exact List.mem_map.mpr ⟨part.keys, branch, rfl⟩

/-- At a key of a bucket, the copies along the rules of its elements run.  The
key variable has to be set only if an element has several sections. -/
theorem Arranges.chosen?
    (ruled : List.Forall₂ (fun (element : ElementCopy) rule =>
      element.RuleAt key rule) bucket.elements rules) :
    ∃ chosen, copies.chosen? environment = some chosen ∧
      chosen.Perm (rules.map (Copy.ofRule isUnrolled)) := by
  have parts : copies.sectioned.mapM (Chain.taken? environment .key) =
      some (shapes.map fun shape =>
        some ((bucket.sectioned.filter (·.shape = shape)).flatMap
          fun element => copiesAt isUnrolled element.sections key)) := by
    rw [mapM_eq_some_iff, List.forall₂_map_right_iff]
    refine (List.forall₂_iff_zip.mpr ?_).flip
    have related := List.forall₂_iff_zip.mp arranges.sectioned
    refine ⟨related.1, fun {shape chain} among => ?_⟩
    exact arranges.taken? divided representable bound set member
      (List.of_mem_zip among).1 (related.2 among)
  refine ⟨copies.direct ++ (shapes.flatMap fun shape =>
    bucket.sectioned.filter (·.shape = shape)).flatMap fun element =>
      copiesAt isUnrolled element.sections key, ?_, ?_⟩
  · rw [BucketCopies.chosen?, parts, List.flatMap_assoc]
    simp only [Option.bind_eq_bind, Option.bind_some, List.flatMap_map]
    rfl
  · have gathered := flatMap_filter_shape_perm arranges.distinct
      fun element present =>
        (arranges.occurs element.shape).mpr ⟨element, present, rfl⟩
    rw [arranges.direct]
    refine ((gathered.flatMap_right _).append_left _).trans ?_
    refine rules_perm (fun element among missing => ?_) ruled
    exact divided.partition element
      (ElementBucket.mem_sectioned.mpr ⟨among, missing⟩)

end AtKey

end BucketCopies

/-! ## Groups -/

namespace GroupAccess

variable {access : GroupAccess} {elements : KeyElements}
  {locations : Locations} {environment : Environment Symbol}
  {isUnrolled : Bool} {lastKey key : Nat} {bucket : ElementBucket}
  {provided : IndexSet} {rules : List (IndexPattern × IndexPattern)}

/-- The copies that run after a call, unless a guard gets stuck. -/
def copiesAfter? (environment : Environment Symbol) :
    Option (Chain BucketCopies) → Option (List Copy)
  | none => some []
  | some chain => do
    match ← chain.taken? environment .key with
    | none => some []
    | some copies => copies.chosen? environment

/-- All keys of the buckets of a group and of their sections are words. -/
structure IsRepresentable (access : GroupAccess) : Prop where
  buckets : ∀ bucket ∈ access.buckets.values, ∀ key ∈ bucket.keys,
    key ≤ IterationRange.unbounded
  sections : ∀ bucket ∈ access.buckets.values,
    ∀ element ∈ bucket.sectioned, ∀ part ∈ element.sections,
      ∀ key ∈ part.keys, key ≤ IterationRange.unbounded

/-- A group is divided if its keys ascend, each of them lies in exactly one of
the buckets, no bucket is empty, and all buckets are divided. -/
structure IsDivided (access : GroupAccess) : Prop where
  ascending : access.keys.Pairwise (· < ·)
  inhabited : ∀ bucket ∈ access.buckets.values, ∃ key, key ∈ bucket.keys
  apart : access.buckets.values.Pairwise fun left right =>
    ∀ key, key ∈ left.keys → key ∉ right.keys
  covered : ∀ key ∈ access.keys,
    ∃ bucket ∈ access.buckets.values, key ∈ bucket.keys
  divided : ∀ bucket ∈ access.buckets.values, bucket.IsDivided

/-- The keys of a group end with the largest one. -/
theorem IsDivided.le_getLast (divided : access.IsDivided)
    (last : access.keys.getLast? = some lastKey) :
    ∀ key ∈ access.keys, key ≤ lastKey := by
  have ascending := divided.ascending
  obtain ⟨before, listed⟩ := List.getLast?_eq_some_iff.mp last
  rw [listed] at ascending ⊢
  intro key member
  rcases List.mem_append.mp member with earlier | equal
  · exact Nat.le_of_lt ((List.pairwise_append.mp ascending).2.2 key earlier
      lastKey (List.mem_singleton_self lastKey))
  · exact Nat.le_of_eq (List.mem_singleton.mp equal)

/-- The copies of a divided group can be made.  The branches of their chain are
the buckets with what they copy. -/
theorem IsDivided.copyBack_eq_ok (divided : access.IsDivided)
    (isUnrolled : Bool) (last : access.keys.getLast? = some lastKey) :
    ∃ branches chain, access.copyBack isUnrolled = .ok (some chain) ∧
      Chain.ofBranches lastKey
        ((IndexSet.below lastKey).filter (!access.keys.contains ·))
        branches = .ok chain ∧
      List.Forall₂
        (fun (bucket : ElementBucket) (branch : IndexSet × BucketCopies) =>
          bucket.keys = branch.1 ∧ ∃ shapes,
            branch.2.Arranges isUnrolled lastKey bucket shapes)
        access.buckets.values branches := by
  obtain ⟨bucket, listed, _⟩ :=
    divided.covered lastKey (List.mem_of_getLast? last)
  have occupied : ¬ access.buckets.isEmpty = true := by
    intro empty
    have entries : access.buckets.entries = [] := List.isEmpty_iff.mp empty
    rw [IndexMap.values, entries] at listed
    cases listed
  have copied : ∀ bucket ∈ access.buckets.values,
      ∃ branch : IndexSet × BucketCopies, (bucket.keys = branch.1 ∧
        ∃ shapes, branch.2.Arranges isUnrolled lastKey bucket shapes) ∧
          BucketCopies.ofBucket isUnrolled lastKey bucket =
            .ok branch.2 := by
    intro bucket among
    obtain ⟨shapes, copies, made, arranges⟩ :=
      BucketCopies.exists_ofBucket isUnrolled lastKey
        (divided.divided bucket among).partition
    exact ⟨(bucket.keys, copies), ⟨rfl, shapes, arranges⟩, made⟩
  obtain ⟨branches, related⟩ := exists_forall₂ copied
  have inhabited : ∀ branch ∈ branches, ∃ key, key ∈ branch.1 := by
    intro branch present
    obtain ⟨source, among, ⟨same, _⟩, _⟩ :=
      exists_left_of_mem related present
    rw [← same]
    exact divided.inhabited source among
  obtain ⟨chain, chained⟩ := Chain.exists_ofBranches
    ((IndexSet.below lastKey).filter (!access.keys.contains ·)) inhabited
  have mapped : access.buckets.values.mapM (fun bucket => do
      pure (bucket.keys,
        ← BucketCopies.ofBucket isUnrolled lastKey bucket)) =
          .ok branches := by
    rw [mapM_eq_ok_iff]
    refine related.imp fun bucket branch both => ?_
    obtain ⟨⟨same, _⟩, made⟩ := both
    simp [made, same, bind, Except.bind, pure, Except.pure]
  refine ⟨branches, chain, ?_, chained, related.imp fun _ _ both => both.1⟩
  rw [GroupAccess.copyBack]
  simp only [last, if_neg occupied, bind_eq_ok_iff, map_eq_ok_iff]
  exact ⟨branches, mapped, chain, chained, rfl⟩

/-- At a key, the copies along the rules of the elements of its bucket run.  The
key variable has to be set only if there are several buckets or sections. -/
theorem IsDivided.copiesAfter (divided : access.IsDivided)
    (representable : access.IsRepresentable)
    (environment : Environment Symbol) (isUnrolled : Bool)
    (set : access.buckets.values.length = 1 ∧
        (∀ bucket ∈ access.buckets.values, ∀ element ∈ bucket.sectioned,
          element.sections.length = 1) ∨
      environment.word .key = some (UInt64.ofNat key))
    (present : key ∈ access.keys) (listed : bucket ∈ access.buckets.values)
    (member : key ∈ bucket.keys)
    (ruled : List.Forall₂ (fun (element : ElementCopy) rule =>
      element.RuleAt key rule) bucket.elements rules) :
    ∃ chain chosen, access.copyBack isUnrolled = .ok (some chain) ∧
      copiesAfter? environment (some chain) = some chosen ∧
      chosen.Perm (rules.map (Copy.ofRule isUnrolled)) := by
  obtain ⟨lastKey, last⟩ : ∃ lastKey,
      access.keys.getLast? = some lastKey :=
    ⟨_, List.getLast?_eq_some_getLast (List.ne_nil_of_mem present)⟩
  have bound := divided.le_getLast last key present
  obtain ⟨branches, chain, made, chained, related⟩ :=
    divided.copyBack_eq_ok isUnrolled last
  obtain ⟨⟨keys, copies⟩, among, same, shapes, arranges⟩ :=
    exists_right_of_mem related listed
  simp only at same arranges
  subst same
  have keySets : access.buckets.values.map (·.keys) =
      branches.map (·.1) := by
    rw [← List.forall₂_eq_eq_eq, List.forall₂_map_left_iff,
      List.forall₂_map_right_iff]
    exact related.imp fun _ _ answers => answers.1
  have separate : (access.buckets.values.map (·.keys)).Pairwise
      fun left right => ∀ key, key ∈ left → key ∉ right :=
    List.pairwise_map.mpr divided.apart
  rw [keySets, List.pairwise_map] at separate
  have taken : chain.taken? environment .key = some (some copies) := by
    refine Chain.taken?_ofBranches chained separate ?_ ?_ bound ?_ among
      member
    · intro branch known other inside
      obtain ⟨source, amongValues, same, _⟩ :=
        exists_left_of_mem related known
      exact representable.buckets source amongValues other (same ▸ inside)
    · rw [← related.length_eq]
      exact set.imp_left And.left
    · rw [IndexSet.mem_filter, List.contains_iff_mem.mpr present]
      simp
  obtain ⟨chosen, runs, permuted⟩ :=
    arranges.chosen? (divided.divided bucket listed)
      (representable.sections bucket listed) bound
      (set.imp_left fun single => single.2 bucket listed) member ruled
  refine ⟨chain, chosen, made, ?_, permuted⟩
  rw [copiesAfter?, taken]
  exact runs

/-- A divided group with one key has one bucket and no element with several
sections. -/
theorem IsDivided.single (divided : access.IsDivided)
    (ofBuckets : ∀ bucket ∈ access.buckets.values, ∀ other ∈ bucket.keys,
      other ∈ access.keys)
    (ofSections : ∀ bucket ∈ access.buckets.values,
      ∀ element ∈ bucket.sectioned, ∀ part ∈ element.sections,
        ∀ other ∈ part.keys, other ∈ bucket.keys)
    (single : access.keys = [key]) :
    access.buckets.values.length = 1 ∧
      ∀ bucket ∈ access.buckets.values, ∀ element ∈ bucket.sectioned,
        element.sections.length = 1 := by
  have alone : ∀ bucket ∈ access.buckets.values,
      ∀ other ∈ bucket.keys, other = key := by
    intro bucket listed other inside
    have known := ofBuckets bucket listed other inside
    rw [single] at known
    exact List.mem_singleton.mp known
  have shared : ∀ bucket ∈ access.buckets.values, key ∈ bucket.keys := by
    intro bucket listed
    obtain ⟨other, inside⟩ := divided.inhabited bucket listed
    rw [← alone bucket listed other inside]
    exact inside
  constructor
  · have atMost := IndexSet.length_le_one_of_apart
      (List.pairwise_map.mpr divided.apart) fun keys mapped => by
        obtain ⟨bucket, listed, rfl⟩ := List.mem_map.mp mapped
        exact shared bucket listed
    rw [List.length_map] at atMost
    obtain ⟨bucket, listed, _⟩ := divided.covered key (by simp [single])
    exact Nat.le_antisymm atMost
      (List.length_pos_iff.mpr (List.ne_nil_of_mem listed))
  · intro bucket listed element sectioned
    exact (divided.divided bucket listed).length_sections sectioned
      (fun part among other inside => alone bucket listed other
        (ofSections bucket listed element sectioned part among other inside))
      (shared bucket listed)

end GroupAccess

/-! ## Groups that serve their elements -/

/-- An element that serves points has one rule at the key of each. -/
theorem ElementCopy.Serves.exists_rule {element : ElementCopy}
    {points : List ElementPoint} (serves : element.Serves points) {key : Nat}
    (known : key ∈ points.map (·.key)) :
    ∃ rule, element.RuleAt key rule ∧ element.rulesAt key = [rule] := by
  cases direct : element.direct? with
  | some rule =>
    obtain ⟨unsectioned, _⟩ := serves.direct rule.1 rule.2 direct
    refine ⟨rule, .inl direct, ?_⟩
    simp [rulesAt, direct, unsectioned]
  | none =>
    have cover := serves.sectioned direct
    obtain ⟨part, among, inside⟩ := (cover.keys key).mpr known
    refine ⟨(part.target, part.source),
      .inr ⟨direct, part, among, inside, rfl⟩, ?_⟩
    simp [rulesAt, direct,
      ElementSection.filter_eq cover.apart among inside]

namespace ElementBucket

variable {bucket : ElementBucket} {elements : KeyElements}
  {locations : Locations} {count key : Nat} {element : ElementCopy}

/-- The sections of an element of a bucket cover points with its keys. -/
theorem Serves.exists_cover (serves : bucket.Serves elements locations count)
    (sectioned : element ∈ bucket.sectioned) :
    ∃ points, ElementSection.Cover element.sections points ∧
      ∀ key, key ∈ points.map (·.key) ↔ key ∈ bucket.keys := by
  obtain ⟨among, missing⟩ := mem_sectioned.mp sectioned
  obtain ⟨rank, ranked⟩ := List.mem_iff_getElem?.mp among
  obtain ⟨points, copied, same, _⟩ := serves.copies rank element ranked
  exact ⟨points, copied.sectioned missing, same⟩

theorem Serves.isDivided (serves : bucket.Serves elements locations count) :
    bucket.IsDivided where
  partition element sectioned := by
    obtain ⟨points, cover, _⟩ := serves.exists_cover sectioned
    exact cover.isPartition
  covered element sectioned key inside := by
    obtain ⟨points, cover, same⟩ := serves.exists_cover sectioned
    exact (cover.keys key).mpr ((same key).mpr inside)

/-- At a key of a bucket, each of its elements has one rule. -/
theorem Serves.forall₂_rulesAt
    (serves : bucket.Serves elements locations count)
    (member : key ∈ bucket.keys) :
    List.Forall₂ (fun (element : ElementCopy) rule =>
        element.RuleAt key rule)
      bucket.elements (bucket.elements.flatMap (·.rulesAt key)) := by
  have ruled : ∀ element ∈ bucket.elements, ∃ rule,
      element.RuleAt key rule ∧ element.rulesAt key = [rule] := by
    intro element among
    obtain ⟨rank, ranked⟩ := List.mem_iff_getElem?.mp among
    obtain ⟨points, copied, same, _⟩ := serves.copies rank element ranked
    exact copied.exists_rule ((same key).mpr member)
  generalize bucket.elements = copies at ruled ⊢
  induction copies with
  | nil => exact .nil
  | cons element rest ih =>
    obtain ⟨rule, holds, alone⟩ := ruled element List.mem_cons_self
    rw [List.flatMap_cons, alone]
    exact .cons holds
      (ih fun other among => ruled other (List.mem_cons_of_mem _ among))

end ElementBucket

namespace GroupAccess

variable {access : GroupAccess} {elements : KeyElements}
  {locations : Locations} {isUnrolled : Bool} {key : Nat}
  {provided : IndexSet}

/-- A bucket has only keys of its access. -/
theorem Serves.mem_keys_of_bucket
    (serves : access.Serves elements locations) {count : Nat}
    {bucket : ElementBucket}
    (found : access.buckets.get? count = some bucket)
    (inside : key ∈ bucket.keys) : key ∈ access.keys := by
  obtain ⟨provided, stored, _⟩ :=
    ((serves.serves count bucket found).keys key).mp inside
  rw [serves.keys, IndexMap.mem_keyList]
  exact ⟨provided, IndexMap.get?_eq_some_iff.mp stored⟩

/-- A group whose keys are sorted into divided buckets is divided. -/
theorem Sorts.isDivided (sorts : access.Sorts elements)
    (divided : ∀ bucket ∈ access.buckets.values, bucket.IsDivided) :
    access.IsDivided where
  ascending := by
    rw [sorts.keys]
    exact elements.keys.ascending
  inhabited bucket listed := by
    obtain ⟨count, found⟩ := IndexMap.mem_values.mp listed
    exact sorts.occupied count bucket found
  apart := sorts.apart
  covered key present := by
    rw [sorts.keys, IndexMap.mem_keyList] at present
    obtain ⟨provided, stored⟩ := present
    have recorded := IndexMap.get?_eq_some_iff.mpr stored
    obtain ⟨bucket, found⟩ := sorts.buffered key provided recorded
    exact ⟨bucket, IndexMap.mem_values.mpr ⟨_, found⟩,
      (sorts.buckets _ _ found key).mpr ⟨provided, recorded, rfl⟩⟩
  divided := divided

/-- A group that does not write in place is divided. -/
theorem Serves.isDivided (serves : access.Serves elements locations)
    (unplaced : access.start = none) : access.IsDivided := by
  refine (serves.sorts unplaced).isDivided fun bucket listed => ?_
  obtain ⟨count, found⟩ := IndexMap.mem_values.mp listed
  exact (serves.serves count bucket found).isDivided

/-- A section has only keys of its bucket. -/
theorem Serves.mem_keys_of_section
    (serves : access.Serves elements locations) {bucket : ElementBucket}
    (listed : bucket ∈ access.buckets.values) {element : ElementCopy}
    (sectioned : element ∈ bucket.sectioned) {part : ElementSection}
    (among : part ∈ element.sections) (inside : key ∈ part.keys) :
    key ∈ bucket.keys := by
  obtain ⟨count, found⟩ := IndexMap.mem_values.mp listed
  obtain ⟨points, cover, same⟩ :=
    (serves.serves count bucket found).exists_cover sectioned
  exact (same key).mp ((cover.keys key).mp ⟨part, among, inside⟩)

theorem Serves.isRepresentable (serves : access.Serves elements locations)
    (small : ∀ key ∈ access.keys, key ≤ IterationRange.unbounded) :
    access.IsRepresentable where
  buckets bucket listed key inside := by
    obtain ⟨count, found⟩ := IndexMap.mem_values.mp listed
    exact small key (serves.mem_keys_of_bucket found inside)
  sections bucket listed element sectioned part among key inside := by
    obtain ⟨count, found⟩ := IndexMap.mem_values.mp listed
    exact small key (serves.mem_keys_of_bucket found
      (serves.mem_keys_of_section listed sectioned among inside))

theorem Serves.single (serves : access.Serves elements locations)
    (unplaced : access.start = none) (single : access.keys = [key]) :
    access.buckets.values.length = 1 ∧
      ∀ bucket ∈ access.buckets.values, ∀ element ∈ bucket.sectioned,
        element.sections.length = 1 := by
  refine (serves.isDivided unplaced).single (fun bucket listed _ inside => ?_)
    (fun bucket listed element sectioned part among _ inside =>
      serves.mem_keys_of_section listed sectioned among inside) single
  obtain ⟨count, found⟩ := IndexMap.mem_values.mp listed
  exact serves.mem_keys_of_bucket found inside

/-- After the call of a buffered group at a key, the copies along the rules of
the key's bucket run. -/
theorem Serves.copiesAfter (serves : access.Serves elements locations)
    (environment : Environment Symbol) (unplaced : access.start = none)
    {copyBack : Option (Chain BucketCopies)}
    (made : access.copyBack isUnrolled = .ok copyBack)
    (small : ∀ key ∈ access.keys, key ≤ IterationRange.unbounded)
    (stored : elements.get? key = some provided)
    (set : access.keys = [key] ∨
      environment.word .key = some (UInt64.ofNat key)) :
    ∃ bucket chosen, access.buckets.get? provided.size = some bucket ∧
      copiesAfter? environment copyBack = some chosen ∧
      chosen.Perm ((bucket.elements.flatMap (·.rulesAt key)).map
        (Copy.ofRule isUnrolled)) := by
  obtain ⟨bucket, found⟩ := serves.buffered unplaced key provided stored
  have bucketServes := serves.serves _ _ found
  have member : key ∈ bucket.keys :=
    (bucketServes.keys key).mpr ⟨provided, stored, rfl⟩
  obtain ⟨chain, chosen, remade, runs, permuted⟩ :=
    (serves.isDivided unplaced).copiesAfter (serves.isRepresentable small)
      environment isUnrolled (set.imp_left (serves.single unplaced))
      (serves.mem_keys_of_bucket found member)
      (IndexMap.mem_values.mpr ⟨_, found⟩) member
      (bucketServes.forall₂_rulesAt member)
  rw [made, Except.ok.injEq] at remade
  subst remade
  exact ⟨bucket, chosen, found, runs, permuted⟩

end GroupAccess

end SparseLoop
