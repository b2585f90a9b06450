import Mathlib.Data.List.Nodup
import SparseLoop.Index.Map

/-!
# Sets and maps of indices as lists

The members of a set and the keys of a map are strictly ascending lists.  A
list that is ascending already is therefore the list of its set, and a list of
entries with distinct keys is, up to order, the list of entries of its map.
-/

namespace SparseLoop

namespace IndexSet

variable {set : IndexSet} {members : List Nat}

theorem nodup_toList (set : IndexSet) : set.toList.Nodup :=
  set.ascending.imp Nat.ne_of_lt

/-- A member of an ascending list is no smaller than its position. -/
theorem le_getElem_of_ascending (ascending : members.Pairwise (· < ·))
    {position : Nat} (inside : position < members.length) :
    position ≤ members[position] := by
  induction position with
  | zero => exact Nat.zero_le _
  | succ earlier ih =>
    have before := ih (Nat.lt_of_succ_lt inside)
    have below := List.pairwise_iff_getElem.mp ascending earlier
      (earlier + 1) (Nat.lt_of_succ_lt inside) inside
      (Nat.lt_succ_self earlier)
    omega

/-- The set of its members is a set itself. -/
theorem ofList_toList (set : IndexSet) : ofList set.toList = set :=
  ext_mem fun _ => mem_ofList

theorem isEmpty_iff : set.isEmpty = true ↔ ∀ index, index ∉ set := by
  rw [isEmpty, List.isEmpty_iff]
  constructor
  · intro empty index member
    rw [← mem_toList, empty] at member
    simp at member
  · intro none
    exact List.eq_nil_iff_forall_not_mem.mpr none

theorem min?_eq_some_iff {first : Nat} :
    set.min? = some first ↔
      first ∈ set ∧ ∀ index ∈ set, first ≤ index := by
  obtain ⟨members, ascending⟩ := set
  cases members with
  | nil =>
    constructor
    · intro found
      cases found
    · rintro ⟨member, _⟩
      cases member
  | cons head rest =>
    have least := (List.pairwise_cons.mp ascending).1
    constructor
    · intro found
      obtain rfl : head = first := by simpa [min?] using found
      refine ⟨List.mem_cons_self, fun index member => ?_⟩
      rcases List.mem_cons.mp member with equal | later
      · exact Nat.le_of_eq equal.symm
      · exact Nat.le_of_lt (least index later)
    · rintro ⟨member, lowest⟩
      have below := lowest head List.mem_cons_self
      rcases List.mem_cons.mp member with equal | later
      · simp [min?, equal]
      · exact absurd (least first later) (Nat.not_lt.mpr below)

theorem min?_eq_none_iff : set.min? = none ↔ ∀ index, index ∉ set := by
  rw [min?, List.head?_eq_none_iff, List.eq_nil_iff_forall_not_mem]
  rfl

/-- Sets without a common member cannot share one. -/
theorem length_le_one_of_apart {sets : List IndexSet} {shared : Nat}
    (apart : sets.Pairwise fun left right =>
      ∀ index, index ∈ left → index ∉ right)
    (members : ∀ set ∈ sets, shared ∈ set) : sets.length ≤ 1 := by
  match sets, apart with
  | [], _ => exact Nat.zero_le 1
  | [_], _ => exact Nat.le_refl 1
  | left :: right :: rest, apart =>
    have separate := (List.pairwise_cons.mp apart).1 right (by simp)
    exact absurd (members right (by simp))
      (separate shared (members left (by simp)))

end IndexSet

namespace IndexMap

variable {α β : Type} {map : IndexMap α} {entries : List (Nat × α)}

theorem nodup_keyList (map : IndexMap α) : map.keyList.Nodup :=
  map.keys.nodup_toList

theorem nodup_entries (map : IndexMap α) : map.entries.Nodup :=
  List.Nodup.of_map Prod.fst map.nodup_keyList

theorem mem_keyList {key : Nat} :
    key ∈ map.keyList ↔ ∃ value, (key, value) ∈ map.entries := by
  simp [keyList]

/-- A map has one value for a key. -/
theorem value_unique {key : Nat} {first second : α}
    (memFirst : (key, first) ∈ map.entries)
    (memSecond : (key, second) ∈ map.entries) :
    first = second := by
  rw [← get?_eq_some_iff] at memFirst memSecond
  exact Option.some.inj (memFirst.symm.trans memSecond)

theorem contains_iff {key : Nat} :
    map.contains key = true ↔ ∃ value, map.get? key = some value := by
  rw [contains, Option.isSome_iff_exists]

theorem isEmpty_iff : map.isEmpty = true ↔ ∀ key, map.get? key = none := by
  rw [isEmpty, List.isEmpty_iff, List.eq_nil_iff_forall_not_mem]
  constructor
  · intro none key
    rw [get?_eq_none_iff, mem_keys]
    rintro ⟨value, member⟩
    exact none _ member
  · rintro none ⟨key, value⟩ member
    rw [← get?_eq_some_iff, none key] at member
    cases member

theorem mem_values {value : α} :
    value ∈ map.values ↔ ∃ key, map.get? key = some value := by
  simp [values, get?_eq_some_iff]

/-- Maps with the same look-ups are equal. -/
theorem ext_get? {left right : IndexMap α}
    (same : ∀ key, left.get? key = right.get? key) : left = right := by
  have members : ∀ entry, entry ∈ left.entries ↔ entry ∈ right.entries := by
    rintro ⟨key, value⟩
    rw [← get?_eq_some_iff, ← get?_eq_some_iff, same key]
  have permuted : left.entries.Perm right.entries :=
    (List.perm_ext_iff_of_nodup left.nodup_entries right.nodup_entries).mpr
      members
  refine IndexMap.ext (permuted.eq_of_pairwise ?_
    left.ascending right.ascending)
  intro first second _ _ below above
  exact absurd below (Nat.lt_asymm above)

theorem get?_insertAll (map : IndexMap α)
    (distinct : (entries.map (·.1)).Nodup) {key : Nat} :
    (entries.foldl (fun map entry => map.insert entry.1 entry.2) map).get?
        key =
      ((entries.find? (·.1 == key)).map (·.2)).or (map.get? key) := by
  induction entries generalizing map with
  | nil => simp
  | cons entry rest ih =>
    rw [List.map_cons, List.nodup_cons] at distinct
    rw [List.foldl_cons, ih _ distinct.2, get?_insert, List.find?_cons]
    by_cases same : entry.1 = key
    · have absent : rest.find? (·.1 == key) = none := by
        rw [List.find?_eq_none]
        intro other member equal
        apply distinct.1
        rw [same, ← eq_of_beq equal]
        exact List.mem_map_of_mem member
      simp [same, absent]
    · have skipped : (entry.1 == key) = false := by simpa using same
      have different : ¬ key = entry.1 := fun equal => same equal.symm
      simp [skipped, different]

theorem mem_entries_insertAll {entry : Nat × α}
    (member : entry ∈ (entries.foldl
      (fun map entry => map.insert entry.1 entry.2) map).entries) :
    entry ∈ entries ∨ entry ∈ map.entries := by
  induction entries generalizing map with
  | nil => exact .inr member
  | cons first rest ih =>
    rcases ih member with later | before
    · exact .inl (List.mem_cons_of_mem _ later)
    · rcases mem_entries_insert.mp before with rfl | ⟨earlier, _⟩
      · exact .inl List.mem_cons_self
      · exact .inr earlier

/-- A map of a list has no other entries than the list. -/
theorem mem_of_mem_entries_ofList {entry : Nat × α}
    (member : entry ∈ (ofList entries).entries) : entry ∈ entries :=
  (mem_entries_insertAll member).resolve_right List.not_mem_nil

/-- With distinct keys, a map of a list holds exactly the list's entries. -/
theorem get?_ofList (distinct : (entries.map (·.1)).Nodup) {key : Nat}
    {value : α} :
    (ofList entries).get? key = some value ↔ (key, value) ∈ entries := by
  rw [ofList, get?_insertAll ∅ distinct, get?_empty, Option.or_none]
  constructor
  · intro found
    obtain ⟨⟨other, stored⟩, first, equal⟩ := Option.map_eq_some_iff.mp found
    have matched := List.find?_some first
    simp only [beq_iff_eq] at matched equal
    subst matched equal
    exact List.mem_of_find?_eq_some first
  · intro member
    have found : ∃ entry, entries.find? (·.1 == key) = some entry := by
      rw [← Option.isSome_iff_exists, List.find?_isSome]
      exact ⟨_, member, by simp⟩
    obtain ⟨⟨other, stored⟩, first⟩ := found
    have matched := List.find?_some first
    simp only [beq_iff_eq] at matched
    subst matched
    have same := List.inj_on_of_nodup_map distinct
      (List.mem_of_find?_eq_some first) member rfl
    rw [first, same]
    rfl

/-- With distinct keys, the entries of the map of a list are those of the
list, in another order. -/
theorem entries_ofList_perm (distinct : (entries.map (·.1)).Nodup) :
    (ofList entries).entries.Perm entries := by
  refine (List.perm_ext_iff_of_nodup (nodup_entries _)
    (List.Nodup.of_map Prod.fst distinct)).mpr ?_
  rintro ⟨key, value⟩
  rw [← get?_eq_some_iff, get?_ofList distinct]

/-- An ascending list is the list of entries of its map. -/
theorem entries_ofList
    (ascending : entries.Pairwise fun left right => left.1 < right.1) :
    (ofList entries).entries = entries := by
  have distinct : (entries.map (·.1)).Nodup :=
    (List.pairwise_map.mpr ascending).imp Nat.ne_of_lt
  have same : ofList entries = ⟨entries, ascending⟩ := by
    apply ext_get?
    intro key
    apply Option.ext
    intro value
    rw [get?_ofList distinct, get?_eq_some_iff]
  rw [same]

@[simp]
theorem get?_mapValues {change : α → β} {key : Nat} :
    (map.mapValues change).get? key = (map.get? key).map change := by
  have unchanged : (fun entry : Nat × β => entry.1 == key) ∘
      (fun entry : Nat × α => (entry.1, change entry.2)) =
        fun entry => entry.1 == key := rfl
  rw [get?, get?, mapValues, List.find?_map, unchanged, Option.map_map,
    Option.map_map]
  rfl

@[simp]
theorem values_mapValues {change : α → β} :
    (map.mapValues change).values = map.values.map change := by
  rw [values, values, mapValues, List.map_map, List.map_map]
  rfl

theorem get?_ofSequence {values : List α} {position : Nat} {value : α} :
    (ofSequence values).get? position = some value ↔
      values[position]? = some value := by
  have distinct : ((values.zipIdx.map
      fun place => (place.2, place.1)).map (·.1)).Nodup := by
    rw [List.map_map]
    show (values.zipIdx.map Prod.snd).Nodup
    rw [List.zipIdx_map_snd]
    exact List.nodup_range'
  rw [ofSequence, get?_ofList distinct]
  simp [List.mem_zipIdx_iff_getElem?]

end IndexMap

end SparseLoop
