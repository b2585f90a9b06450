import SparseLoop.Proofs.Range.Compression
import SparseLoop.Proofs.Range.Guard
import SparseLoop.Proofs.Traversal
import SparseLoop.Routine.Chain

/-!
# The branch that a chain takes

A chain is run by testing its guards one after the other at the value of the
key variable.  A chain of one branch has no guard and reads nothing.

A chain made of branches with keys of their own takes, at each of these keys,
the branch that the key belongs to.  The induction is on the branches: what an
earlier guard rejects has become spare for the later ones, and the key itself
is never spare before its own branch is reached.
-/

namespace SparseLoop

open Traversal

namespace Chain

variable {α ν : Type} {environment : Environment ν} {variableName : ν}

/-- The body of the first branch whose guard holds, or the last branch. -/
def firstTaken? (environment : Environment ν) (variableName : ν)
    (otherwise : Option α) :
    List (List IterationRange × α) → Option (Option α)
  | [] => some otherwise
  | (ranges, body) :: rest => do
    let condition ← IterationRange.guard? ranges variableName
    let value ← condition.value? environment
    if value = 0 then
      firstTaken? environment variableName otherwise rest
    else
      some (some body)

/-- One test decides between the first branch and the rest. -/
theorem exists_test_of_firstTaken? {otherwise : Option α}
    {branch : List IterationRange × α}
    {rest : List (List IterationRange × α)} {taken : Option α}
    (found : firstTaken? environment variableName otherwise
      (branch :: rest) = some taken) :
    ∃ condition value,
      IterationRange.guard? branch.1 variableName = some condition ∧
      condition.value? environment = some value ∧
      (value = 0 →
        firstTaken? environment variableName otherwise rest = some taken) ∧
      (value ≠ 0 → taken = some branch.2) := by
  simp only [firstTaken?, Option.bind_eq_bind, Option.bind_eq_some_iff]
    at found
  obtain ⟨condition, written, value, tested, found⟩ := found
  refine ⟨condition, value, written, tested, ?_, ?_⟩
  · intro rejected
    rwa [if_pos rejected] at found
  · intro accepted
    rw [if_neg accepted] at found
    exact (Option.some.inj found).symm

/-- The body that a chain runs, unless it gets stuck; a chain without
branches is no statement. -/
def taken? (environment : Environment ν) (variableName : ν)
    (chain : Chain α) : Option (Option α) :=
  match chain with
  | ⟨[], none⟩ => none
  | ⟨guarded, otherwise⟩ =>
    firstTaken? environment variableName otherwise guarded

theorem taken?_of_otherwise {guarded : List (List IterationRange × α)}
    (body : α) :
    taken? environment variableName ⟨guarded, some body⟩ =
      firstTaken? environment variableName (some body) guarded := by
  cases guarded <;> rfl

theorem ofBranches_cons_eq_ok {lastKey : Nat} {spare keys : IndexSet}
    {body : α} {second : IndexSet × α} {rest : List (IndexSet × α)}
    {chain : Chain α}
    (made : ofBranches lastKey spare ((keys, body) :: second :: rest) =
      .ok chain) :
    ∃ following, ofBranches lastKey (spare.union keys) (second :: rest) =
        .ok following ∧
      (∃ key, key ∈ keys) ∧
      chain =
        { following with
          guarded := (IterationRange.cover keys spare lastKey, body) ::
            following.guarded } := by
  simp only [ofBranches, bind_eq_ok_iff] at made
  obtain ⟨ranges, compressed, following, others, equal⟩ := made
  obtain ⟨inhabited, covered⟩ :=
    IterationRange.compress_eq_ok_iff.mp compressed
  cases equal
  subst covered
  exact ⟨following, others, inhabited, rfl⟩

/-- Branches without a key in common. -/
def Apart (branches : List (IndexSet × α)) : Prop :=
  branches.Pairwise fun left right =>
    ∀ key, key ∈ left.1 → key ∉ right.1

/-- A made chain ends with a branch that needs no guard. -/
theorem ofBranches_otherwise {lastKey : Nat} {spare : IndexSet}
    {branches : List (IndexSet × α)} {chain : Chain α}
    (made : ofBranches lastKey spare branches = .ok chain)
    (inhabited : branches ≠ []) :
    ∃ body, chain.otherwise = some body := by
  induction branches generalizing spare chain with
  | nil => exact absurd rfl inhabited
  | cons branch rest ih =>
    obtain ⟨keys, body⟩ := branch
    cases rest with
    | nil =>
      cases made
      exact ⟨body, rfl⟩
    | cons second others =>
      obtain ⟨following, remaining, _, equal⟩ := ofBranches_cons_eq_ok made
      obtain ⟨last, closes⟩ := ih remaining (List.cons_ne_nil _ _)
      subst equal
      exact ⟨last, closes⟩

/-- A chain that tests something before each branch but the last. -/
structure IsGuarded (chain : Chain α) : Prop where
  closes : ∃ last, chain.otherwise = some last
  guards : ∀ branch ∈ chain.guarded, branch.1 ≠ []

/-- A made chain tests something before each branch but the last. -/
theorem ofBranches_isGuarded {lastKey : Nat} {spare : IndexSet}
    {branches : List (IndexSet × α)} {chain : Chain α}
    (made : ofBranches lastKey spare branches = .ok chain)
    (inhabited : branches ≠ []) : chain.IsGuarded where
  closes := ofBranches_otherwise made inhabited
  guards := by
    clear inhabited
    induction branches generalizing spare chain with
    | nil =>
      cases made
      exact fun _ absurdly => absurd absurdly List.not_mem_nil
    | cons branch rest ih =>
      obtain ⟨keys, body⟩ := branch
      cases rest with
      | nil =>
        cases made
        exact fun _ absurdly => absurd absurdly List.not_mem_nil
      | cons second others =>
        obtain ⟨following, remaining, occupied, equal⟩ :=
          ofBranches_cons_eq_ok made
        subst equal
        exact List.forall_mem_cons.mpr
          ⟨IterationRange.cover_ne_nil occupied, ih remaining⟩

/-- Branches that all have keys can be made into a chain. -/
theorem exists_ofBranches {lastKey : Nat} (spare : IndexSet)
    {branches : List (IndexSet × α)}
    (inhabited : ∀ branch ∈ branches, ∃ key, key ∈ branch.1) :
    ∃ chain, ofBranches lastKey spare branches = .ok chain := by
  induction branches generalizing spare with
  | nil => exact ⟨_, rfl⟩
  | cons branch rest ih =>
    obtain ⟨keys, body⟩ := branch
    cases rest with
    | nil => exact ⟨_, rfl⟩
    | cons second others =>
      obtain ⟨following, remaining⟩ := ih (spare.union keys)
        fun other among => inhabited other (List.mem_cons_of_mem _ among)
      have compressed : IterationRange.compress keys spare lastKey =
          .ok (IterationRange.cover keys spare lastKey) :=
        IterationRange.compress_eq_ok_iff.mpr
          ⟨inhabited _ List.mem_cons_self, rfl⟩
      refine ⟨{ following with
        guarded := (IterationRange.cover keys spare lastKey, body) ::
          following.guarded }, ?_⟩
      simp only [ofBranches, bind_eq_ok_iff]
      exact ⟨_, compressed, following, remaining, rfl⟩

/-- The bodies of a chain, in the order of its branches. -/
def bodies (chain : Chain α) : List α :=
  chain.guarded.map (·.2) ++ chain.otherwise.toList

/-- A guarded chain takes one of its branches if it takes anything. -/
theorem IsGuarded.exists_of_taken? {chain : Chain α}
    (guarded : chain.IsGuarded) {taken : Option α}
    (found : chain.taken? environment variableName = some taken) :
    ∃ body ∈ chain.bodies, taken = some body := by
  obtain ⟨last, closes⟩ := guarded.closes
  obtain ⟨branches, otherwise⟩ := chain
  cases closes
  rw [taken?_of_otherwise] at found
  clear guarded
  induction branches with
  | nil =>
    cases found
    exact ⟨last, List.mem_singleton_self last, rfl⟩
  | cons branch rest ih =>
    obtain ⟨_, value, _, _, failed, held⟩ := exists_test_of_firstTaken? found
    by_cases rejected : value = 0
    · obtain ⟨body, among, equal⟩ := ih (failed rejected)
      exact ⟨body, List.mem_cons_of_mem _ among, equal⟩
    · exact ⟨branch.2, List.mem_cons_self, held rejected⟩

/-- A made chain has the bodies of its branches, and a guard before all but
the last of them. -/
theorem bodies_ofBranches {lastKey : Nat} {spare : IndexSet}
    {branches : List (IndexSet × α)} {chain : Chain α}
    (made : ofBranches lastKey spare branches = .ok chain) :
    chain.bodies = branches.map (·.2) ∧
      chain.guarded.length = branches.length - 1 := by
  induction branches generalizing spare chain with
  | nil =>
    cases made
    exact ⟨rfl, rfl⟩
  | cons branch rest ih =>
    obtain ⟨keys, body⟩ := branch
    cases rest with
    | nil =>
      cases made
      exact ⟨rfl, rfl⟩
    | cons second others =>
      obtain ⟨following, remaining, _, equal⟩ := ofBranches_cons_eq_ok made
      obtain ⟨listed, counted⟩ := ih remaining
      subst equal
      rw [bodies] at listed ⊢
      constructor
      · rw [List.map_cons, List.cons_append, listed]
        rfl
      · rw [List.length_cons, counted]
        rfl

/-- One test of a chain: at a key that is not spare, the first branch is taken
exactly if the key belongs to it, and otherwise the chain goes on. -/
theorem taken?_covered {lastKey key : Nat} {spare keys : IndexSet}
    {body last : α} {guarded : List (List IterationRange × α)}
    (inhabited : ∃ other, other ∈ keys)
    (representable : ∀ other ∈ keys, other ≤ IterationRange.unbounded)
    (set : environment.word variableName = some (UInt64.ofNat key))
    (small : key ≤ IterationRange.unbounded)
    (bound : key ≤ lastKey) (needed : key ∉ spare) :
    taken? environment variableName
        ⟨(IterationRange.cover keys spare lastKey, body) :: guarded,
          some last⟩ =
      if key ∈ keys then some (some body)
      else taken? environment variableName ⟨guarded, some last⟩ := by
  have words : ∀ range ∈ IterationRange.cover keys spare lastKey,
      range.Representable :=
    IterationRange.cover_representable representable
  have exact : IterationRange.covers
      (IterationRange.cover keys spare lastKey) key = true ↔ key ∈ keys :=
    IterationRange.covers_cover_iff bound small
      fun isSpare => absurd isSpare needed
  obtain ⟨condition, written, value⟩ :=
    IterationRange.value?_guard?
      (IterationRange.cover_ne_nil inhabited)
      words small set
  rw [taken?_of_otherwise, firstTaken?, written]
  simp only [Option.bind_eq_bind, Option.bind_some, value]
  by_cases here : key ∈ keys
  · rw [exact.mpr here, if_pos here]
    rfl
  · rw [Bool.eq_false_iff.mpr (mt exact.mp here), if_neg here]
    have rejected : Operator.truth false = 0 := rfl
    rw [if_pos rejected, ← taken?_of_otherwise]

/-- At a key of one of its branches, a made chain takes this branch.  The key
variable has to be set only if there is another branch. -/
theorem taken?_ofBranches {lastKey key : Nat} {spare keys : IndexSet}
    {branches : List (IndexSet × α)} {body : α} {chain : Chain α}
    (made : ofBranches lastKey spare branches = .ok chain)
    (apart : Apart branches)
    (representable : ∀ branch ∈ branches, ∀ other ∈ branch.1,
      other ≤ IterationRange.unbounded)
    (set : branches.length = 1 ∨
      environment.word variableName = some (UInt64.ofNat key))
    (bound : key ≤ lastKey) (needed : key ∉ spare)
    (member : (keys, body) ∈ branches) (inside : key ∈ keys) :
    chain.taken? environment variableName = some (some body) := by
  induction branches generalizing spare chain with
  | nil => cases member
  | cons branch rest ih =>
    obtain ⟨first, firstBody⟩ := branch
    cases rest with
    | nil =>
      cases List.mem_singleton.mp member
      cases made
      rfl
    | cons second others =>
      have isSet : environment.word variableName =
          some (UInt64.ofNat key) := by
        rcases set with single | isSet
        · simp at single
        · exact isSet
      obtain ⟨following, remaining, inhabited, equal⟩ :=
        ofBranches_cons_eq_ok made
      obtain ⟨last, closes⟩ :=
        ofBranches_otherwise remaining (List.cons_ne_nil _ _)
      obtain ⟨elsewhere, apart⟩ := List.pairwise_cons.mp apart
      obtain ⟨guarded, otherwise⟩ := following
      simp only at closes
      subst equal closes
      rw [taken?_covered inhabited (representable _ List.mem_cons_self)
        isSet (representable _ member key inside) bound needed]
      rcases List.mem_cons.mp member with equal | later
      · cases equal
        rw [if_pos inside]
      · have outside : key ∉ first :=
          fun here => elsewhere _ later key here inside
        rw [if_neg outside]
        refine ih remaining apart ?_ (.inr isSet) ?_ later
        · exact fun branch among =>
            representable branch (List.mem_cons_of_mem _ among)
        · rw [IndexSet.mem_union]
          exact fun either => either.elim needed outside

end Chain

end SparseLoop
