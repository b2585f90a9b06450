import SparseLoop.Index.Set

/-!
# Finite maps from indices

A usage description is made of tables keyed by rows, keys, loops and groups,
and every one of them is walked in ascending key order.  An `IndexMap` holds
its entries as a list with strictly ascending keys.

The view of a map is `get?`.  The lemma `get?_insert` says that an insertion
changes the value of one key and of no other, and `get?_eq_some_iff` ties the
view to the list of entries, which is what a walk over the map sees.
-/

namespace SparseLoop

/-- A finite map from indices, held as its entries in ascending key order. -/
@[ext]
structure IndexMap (α : Type) where
  /-- The entries, smallest key first. -/
  entries : List (Nat × α)
  /-- Each key is smaller than every later one. -/
  ascending : entries.Pairwise (fun left right => left.1 < right.1) := by simp
deriving DecidableEq, Repr

namespace IndexMap

variable {α β : Type}

/-- The map without entries. -/
def empty : IndexMap α where
  entries := []

instance : EmptyCollection (IndexMap α) := ⟨empty⟩

instance : Inhabited (IndexMap α) := ⟨empty⟩

/-- The value of a key, if the key is present. -/
def get? (map : IndexMap α) (key : Nat) : Option α :=
  (map.entries.find? (·.1 == key)).map (·.2)

/-- Whether a key is present. -/
def contains (map : IndexMap α) (key : Nat) : Bool :=
  (map.get? key).isSome

/-- The keys, in ascending order. -/
def keyList (map : IndexMap α) : List Nat :=
  map.entries.map (·.1)

/-- The values, in the order of their keys. -/
def values (map : IndexMap α) : List α :=
  map.entries.map (·.2)

/-- The number of entries. -/
def size (map : IndexMap α) : Nat :=
  map.entries.length

/-- Whether there are no entries. -/
def isEmpty (map : IndexMap α) : Bool :=
  map.entries.isEmpty

/-- The set of keys. -/
def keys (map : IndexMap α) : IndexSet where
  toList := map.keyList
  ascending := List.pairwise_map.2 map.ascending

@[simp]
theorem mem_keys {map : IndexMap α} {key : Nat} :
    key ∈ map.keys ↔ ∃ value, (key, value) ∈ map.entries := by
  show key ∈ map.keyList ↔ _
  simp [keyList]

@[simp]
theorem get?_empty (key : Nat) : (∅ : IndexMap α).get? key = none :=
  rfl

/-- A key has a value exactly if the pair is an entry. -/
theorem get?_eq_some_iff {map : IndexMap α} {key : Nat} {value : α} :
    map.get? key = some value ↔ (key, value) ∈ map.entries := by
  obtain ⟨entries, ascending⟩ := map
  simp only [get?]
  induction entries with
  | nil => simp
  | cons first rest ih =>
    rw [List.pairwise_cons] at ascending
    have step := ih ascending.2
    by_cases found : first.1 = key
    · have absent : (key, value) ∉ rest := by
        intro member
        have larger := ascending.1 _ member
        simp only at larger
        omega
      obtain ⟨first_key, first_value⟩ := first
      simp only at found
      subst found
      simp [absent, eq_comm]
    · have other : (key, value) ≠ first := by
        intro equal
        exact found (by rw [← equal])
      rw [List.find?_cons_of_neg (by simpa using found), step, List.mem_cons]
      simp [other]

/-- A key is absent exactly if no entry has it. -/
theorem get?_eq_none_iff {map : IndexMap α} {key : Nat} :
    map.get? key = none ↔ key ∉ map.keys := by
  rw [mem_keys, Option.eq_none_iff_forall_ne_some]
  simp only [ne_eq, get?_eq_some_iff, not_exists]

/-- The map with a key's value set, whether the key was present or not. -/
def insert (map : IndexMap α) (key : Nat) (value : α) : IndexMap α where
  entries := insertAscending Prod.fst (key, value) map.entries
  ascending := insertAscending_ascending map.ascending

theorem mem_entries_insert {map : IndexMap α} {key : Nat} {value : α}
    {entry : Nat × α} :
    entry ∈ (map.insert key value).entries ↔
      entry = (key, value) ∨ entry ∈ map.entries ∧ entry.1 ≠ key :=
  mem_insertAscending map.ascending

/-- An insertion sets the value of its key and of no other. -/
@[simp]
theorem get?_insert {map : IndexMap α} {key other : Nat} {value : α} :
    (map.insert key value).get? other =
      if other = key then some value else map.get? other := by
  apply Option.ext
  intro candidate
  rw [get?_eq_some_iff, mem_entries_insert]
  by_cases same : other = key
  · subst same
    simp [eq_comm]
  · simp [same, get?_eq_some_iff]

/-- The map with a key's value computed from the value it had before. -/
def alter (map : IndexMap α) (key : Nat) (change : Option α → α) :
    IndexMap α :=
  map.insert key (change (map.get? key))

/-- The map of a list of entries; of two entries with one key the later wins. -/
def ofList (entries : List (Nat × α)) : IndexMap α :=
  entries.foldl (fun map entry => map.insert entry.1 entry.2) ∅

/-- The map that gives each position of a list the value found there. -/
def ofSequence (values : List α) : IndexMap α :=
  ofList (values.zipIdx.map fun (value, position) => (position, value))

/-- The map with every value replaced by its image. -/
def mapValues (change : α → β) (map : IndexMap α) : IndexMap β where
  entries := map.entries.map fun (key, value) => (key, change value)
  ascending := List.pairwise_map.2 map.ascending

end IndexMap

end SparseLoop
