/-!
# Finite sets of indices

Rows, columns, keys, iterations and array positions are all natural numbers,
and every set of them is read in ascending order wherever it reaches a
generated text.  An `IndexSet` therefore holds its members as a strictly
ascending list, so that two sets with the same members are the same value.

The view of a set is membership.  Each operation has one lemma that says what
it does to the members: `mem_insert`, `mem_ofList`, `mem_filter`, `mem_union`,
`mem_below`.  The theorem `ext_mem` says that members determine the set.
-/

namespace SparseLoop

/-! ## Insertion in order -/

section Insertion

variable {α : Type} {number : α → Nat} {item : α} {items : List α}

/-- The items of smaller numbers, an item, and those of larger numbers. -/
def insertAscending (number : α → Nat) (item : α) (items : List α) :
    List α :=
  items.takeWhile (number · < number item) ++
    item :: items.dropWhile (number · ≤ number item)

theorem mem_insertAscending {other : α}
    (ascending : items.Pairwise fun left right => number left < number right) :
    other ∈ insertAscending number item items ↔
      other = item ∨ other ∈ items ∧ number other ≠ number item := by
  unfold insertAscending
  induction items with
  | nil => simp
  | cons first rest ih =>
    rw [List.pairwise_cons] at ascending
    have step := ih ascending.2
    have first_ne : ∀ later ∈ rest, number later ≠ number first := by
      intro later member
      have := ascending.1 later member
      omega
    by_cases below : number first < number item
    · have not_above : number first ≤ number item := by omega
      simp [below, not_above] at step ⊢
      grind
    · have tail_kept : ∀ later ∈ rest, number later ≠ number item := by
        intro later member
        have := ascending.1 later member
        omega
      by_cases equal : number first = number item
      · have kept : rest.dropWhile (number · ≤ number item) = rest := by
          cases rest with
          | nil => rfl
          | cons second others =>
            have larger := ascending.1 second (by simp)
            simp [List.dropWhile_cons]
            omega
        simp [equal, kept]
        grind
      · have above : ¬ number first ≤ number item := by omega
        simp [below, above]
        grind

theorem insertAscending_ascending
    (ascending : items.Pairwise fun left right => number left < number right) :
    (insertAscending number item items).Pairwise
      (fun left right => number left < number right) := by
  unfold insertAscending
  induction items with
  | nil => simp
  | cons first rest ih =>
    rw [List.pairwise_cons] at ascending
    have step := ih ascending.2
    by_cases below : number first < number item
    · have not_above : number first ≤ number item := by omega
      simp only [List.takeWhile_cons, List.dropWhile_cons, below,
        not_above, decide_true, if_true, List.cons_append, List.pairwise_cons]
      refine ⟨?_, step⟩
      intro other member
      rcases (mem_insertAscending ascending.2).1 member with equal | later
      · rw [equal]
        exact below
      · exact ascending.1 other later.1
    · simp only [List.takeWhile_cons, List.dropWhile_cons, below,
        decide_false, Bool.false_eq_true, if_false, List.nil_append]
      have tail_larger : ∀ other ∈ rest, number item < number other := by
        intro other member
        have := ascending.1 other member
        omega
      by_cases above : number first ≤ number item
      · simp only [above, decide_true, if_true, List.pairwise_cons]
        have suffix :
            (rest.dropWhile (number · ≤ number item)).Sublist rest :=
          List.dropWhile_sublist _
        exact ⟨fun other member => tail_larger other (suffix.subset member),
          ascending.2.sublist suffix⟩
      · simp only [above, decide_false, Bool.false_eq_true, if_false,
          List.pairwise_cons]
        refine ⟨?_, ascending⟩
        intro other member
        rcases List.mem_cons.1 member with equal | later
        · rw [equal]
          omega
        · exact tail_larger other later

end Insertion

/-! ## Sets -/

/-- A finite set of indices, held as its members in strictly ascending order. -/
@[ext]
structure IndexSet where
  /-- The members, smallest first. -/
  toList : List Nat
  /-- Each member is smaller than every later one. -/
  ascending : toList.Pairwise (· < ·) := by simp
deriving DecidableEq, Repr

namespace IndexSet

instance : Membership Nat IndexSet where
  mem set index := index ∈ set.toList

instance (index : Nat) (set : IndexSet) : Decidable (index ∈ set) :=
  inferInstanceAs (Decidable (index ∈ set.toList))

@[simp]
theorem mem_toList {index : Nat} {set : IndexSet} :
    index ∈ set.toList ↔ index ∈ set :=
  Iff.rfl

/-- Strictly ascending lists with the same members are equal. -/
theorem eq_of_ascending_of_mem_iff
    {left right : List Nat}
    (left_ascending : left.Pairwise (· < ·))
    (right_ascending : right.Pairwise (· < ·))
    (same : ∀ index, index ∈ left ↔ index ∈ right) :
    left = right := by
  induction left generalizing right with
  | nil =>
    cases right with
    | nil => rfl
    | cons head tail => exact absurd ((same head).2 (by simp)) (by simp)
  | cons first rest ih =>
    cases right with
    | nil => exact absurd ((same first).1 (by simp)) (by simp)
    | cons head tail =>
      rw [List.pairwise_cons] at left_ascending right_ascending
      have heads : first = head := by
        have first_in := (same first).1 (by simp)
        have head_in := (same head).2 (by simp)
        rcases List.mem_cons.1 first_in with equal | first_later
        · exact equal
        · rcases List.mem_cons.1 head_in with equal | head_later
          · exact equal.symm
          · have below := right_ascending.1 first first_later
            have above := left_ascending.1 head head_later
            omega
      subst heads
      refine congrArg _ (ih left_ascending.2 right_ascending.2 ?_)
      intro index
      constructor
      · intro member
        have larger := left_ascending.1 index member
        rcases List.mem_cons.1 ((same index).1 (by simp [member])) with equal | later
        · omega
        · exact later
      · intro member
        have larger := right_ascending.1 index member
        rcases List.mem_cons.1 ((same index).2 (by simp [member])) with equal | later
        · omega
        · exact later

/-- Two sets with the same members are equal. -/
theorem ext_mem {left right : IndexSet}
    (same : ∀ index, index ∈ left ↔ index ∈ right) : left = right :=
  IndexSet.ext
    (eq_of_ascending_of_mem_iff left.ascending right.ascending same)

/-- The set without members. -/
def empty : IndexSet where
  toList := []

instance : EmptyCollection IndexSet := ⟨empty⟩

instance : Inhabited IndexSet := ⟨empty⟩

@[simp]
theorem notMem_empty (index : Nat) : index ∉ (∅ : IndexSet) :=
  List.not_mem_nil

/-- The indices below a bound. -/
def below (bound : Nat) : IndexSet where
  toList := List.range bound
  ascending := List.pairwise_lt_range

@[simp]
theorem mem_below {index bound : Nat} : index ∈ below bound ↔ index < bound :=
  List.mem_range

/-- The set with one more member. -/
def insert (index : Nat) (set : IndexSet) : IndexSet where
  toList := insertAscending id index set.toList
  ascending := insertAscending_ascending set.ascending

@[simp]
theorem mem_insert {index other : Nat} {set : IndexSet} :
    other ∈ set.insert index ↔ other = index ∨ other ∈ set := by
  have placed : other ∈ (set.insert index).toList ↔
      other = index ∨ other ∈ set.toList ∧ other ≠ index :=
    mem_insertAscending set.ascending
  rw [← mem_toList, placed]
  by_cases same : other = index <;> simp [same]

/-- The set with the members of a list added. -/
def insertAll (set : IndexSet) (indices : List Nat) : IndexSet :=
  indices.foldl (fun current index => current.insert index) set

@[simp]
theorem mem_insertAll {other : Nat} {set : IndexSet} {indices : List Nat} :
    other ∈ set.insertAll indices ↔ other ∈ set ∨ other ∈ indices := by
  induction indices generalizing set with
  | nil => simp [insertAll]
  | cons first rest ih =>
    have step : other ∈ (set.insert first).insertAll rest ↔
        other ∈ set.insert first ∨ other ∈ rest := ih
    simp only [insertAll, List.foldl_cons] at step ⊢
    rw [step, mem_insert, List.mem_cons]
    grind

/-- The set of a list's members. -/
def ofList (indices : List Nat) : IndexSet :=
  (∅ : IndexSet).insertAll indices

@[simp]
theorem mem_ofList {other : Nat} {indices : List Nat} :
    other ∈ ofList indices ↔ other ∈ indices := by
  simp [ofList]

/-- The members of either set. -/
def union (left right : IndexSet) : IndexSet :=
  left.insertAll right.toList

@[simp]
theorem mem_union {index : Nat} {left right : IndexSet} :
    index ∈ left.union right ↔ index ∈ left ∨ index ∈ right := by
  simp [union]

/-- The members that satisfy a test. -/
def filter (test : Nat → Bool) (set : IndexSet) : IndexSet where
  toList := set.toList.filter test
  ascending := set.ascending.filter test

@[simp]
theorem mem_filter {index : Nat} {test : Nat → Bool} {set : IndexSet} :
    index ∈ set.filter test ↔ index ∈ set ∧ test index = true :=
  List.mem_filter

/-- Whether an index is a member. -/
def contains (set : IndexSet) (index : Nat) : Bool :=
  set.toList.contains index

@[simp]
theorem contains_iff {index : Nat} {set : IndexSet} :
    set.contains index = true ↔ index ∈ set := by
  simp [contains]

/-- The number of members. -/
def size (set : IndexSet) : Nat :=
  set.toList.length

/-- Whether there are no members. -/
def isEmpty (set : IndexSet) : Bool :=
  set.toList.isEmpty

/-- The smallest member. -/
def min? (set : IndexSet) : Option Nat :=
  set.toList.head?

end IndexSet

end SparseLoop
