import SparseLoop.Proofs.Sparsity.Sections
import SparseLoop.Proofs.Traversal
import SparseLoop.Sparsity.Grouping

/-!
# What grouping finds out about a group

A group that passes the checks of grouping is served by its access: the keys
are those of the group, and either every key starts where the pattern of the
starts says, or every key lies in the bucket of its number of elements and
each of its elements is copied there.

The statements follow the functions of grouping from the inside out: the
recorded positions of a key, its row, the bucket of a number of elements, all
buckets, and the access of the group.
-/

namespace SparseLoop

open Traversal

/-! ## Recorded positions -/

namespace Locations

variable {locations : Locations} {positions : List IndexSet}
  {key element position origin : Nat} {provided : IndexSet}

/-- Every element and every position that is recorded lies below a bound. -/
structure Within (locations : Locations) (bound : Nat) : Prop where
  elements : ∀ key positions, locations.get? key = some positions →
    positions.length ≤ bound
  positions : ∀ key positions, locations.get? key = some positions →
    ∀ targets ∈ positions, ∀ position ∈ targets, position < bound

theorem within_of_entries {bound : Nat}
    (small : ∀ entry ∈ locations.entries, entry.2.length ≤ bound ∧
      ∀ targets ∈ entry.2, ∀ position ∈ targets.toList, position < bound) :
    locations.Within bound where
  elements key positions recorded :=
    (small (key, positions) (IndexMap.get?_eq_some_iff.mp recorded)).1
  positions key positions recorded :=
    (small (key, positions) (IndexMap.get?_eq_some_iff.mp recorded)).2

/-- The single recorded position of an element of a row or key. -/
def At (locations : Locations) (key element position : Nat) : Prop :=
  ∃ positions, locations.get? key = some positions ∧
    position? positions element = some position

theorem find_eq_ok_iff :
    locations.find key = .ok positions ↔
      locations.get? key = some positions := by
  rw [find]
  split <;> simp_all

theorem position?_eq_some_iff :
    position? positions element = some position ↔
      ∃ targets, positions[element]? = some targets ∧
        targets.toList = [position] := by
  rw [position?]
  cases positions[element]? with
  | none => simp
  | some targets =>
    simp only [Option.map_some, Option.some.injEq, exists_eq_left']
    split <;> simp_all

theorem At.unique {other : Nat} (first : locations.At key element position)
    (second : locations.At key element other) : position = other := by
  obtain ⟨positions, recorded, single⟩ := first
  obtain ⟨_, again, alone⟩ := second
  rw [recorded] at again
  cases again
  exact Option.some.inj (single.symm.trans alone)

theorem At.element_lt {bound : Nat} (within : locations.Within bound)
    (located : locations.At key element position) : element < bound := by
  obtain ⟨positions, recorded, single⟩ := located
  obtain ⟨targets, present, _⟩ := position?_eq_some_iff.mp single
  obtain ⟨inside, _⟩ := List.getElem?_eq_some_iff.mp present
  exact Nat.lt_of_lt_of_le inside (within.elements key positions recorded)

theorem At.position_lt {bound : Nat} (within : locations.Within bound)
    (located : locations.At key element position) : position < bound := by
  obtain ⟨positions, recorded, single⟩ := located
  obtain ⟨targets, present, alone⟩ := position?_eq_some_iff.mp single
  refine within.positions key positions recorded targets
    (List.mem_of_getElem? present) position ?_
  rw [← IndexSet.mem_toList, alone]
  exact List.mem_singleton_self position

theorem start_eq_ok (found : locations.start key = .ok origin) :
    locations.At key 0 origin := by
  rw [start, bind_eq_ok_iff] at found
  obtain ⟨positions, recorded, single⟩ := found
  refine ⟨positions, find_eq_ok_iff.mp recorded, ?_⟩
  split at single
  · cases single
  · next first rest =>
    split at single
    · next alone =>
      cases single
      exact position?_eq_some_iff.mpr ⟨first, rfl, alone⟩
    · cases single

/-- The elements of an ordered row or key lie behind its start, as far as sums
of words tell. -/
theorem orderedStart_eq_ok
    (found : locations.orderedStart key provided = .ok origin) :
    locations.At key 0 origin ∧
      ∀ element ∈ provided,
        locations.At key element ((origin + element) % 2 ^ 64) := by
  rw [orderedStart, bind_eq_ok_iff] at found
  obtain ⟨positions, recorded, found⟩ := found
  rw [bind_eq_ok_iff] at found
  obtain ⟨first, started, found⟩ := found
  dsimp only at found
  split at found
  · next inOrder =>
    cases found
    refine ⟨start_eq_ok started, fun element member => ?_⟩
    refine ⟨positions, find_eq_ok_iff.mp recorded, ?_⟩
    simpa [place] using List.find?_eq_none.mp inOrder element member
  · cases found

/-- The elements provided for a row or key lie one after the other behind a
position. -/
structure ConsecutiveFrom (locations : Locations) (key : Nat)
    (provided : IndexSet) (origin : Nat) : Prop where
  start : locations.At key 0 origin
  elements : ∀ element ∈ provided, locations.At key element (origin + element)

/-- No sum of the start of a row or key and an element leaves the words. -/
def SumsFit (locations : Locations) (key : Nat) (provided : IndexSet) : Prop :=
  ∀ origin, locations.At key 0 origin →
    ∀ element ∈ provided, origin + element < 2 ^ 64

theorem consecutiveFrom_of_sum_lt
    (found : locations.orderedStart key provided = .ok origin)
    (small : ∀ element ∈ provided, ∀ position,
      locations.At key element position → origin + element < 2 ^ 64) :
    locations.ConsecutiveFrom key provided origin := by
  obtain ⟨first, placed⟩ := orderedStart_eq_ok found
  refine ⟨first, fun element member => ?_⟩
  have here := placed element member
  rwa [Nat.mod_eq_of_lt (small element member _ here)] at here

/-- Where the sums fit, an order of words is one of numbers. -/
theorem SumsFit.consecutiveFrom (fits : locations.SumsFit key provided)
    (found : locations.orderedStart key provided = .ok origin) :
    locations.ConsecutiveFrom key provided origin :=
  consecutiveFrom_of_sum_lt found fun element member _ _ =>
    fits origin (orderedStart_eq_ok found).1 element member

/-- Below half of the words, the sums of a start and of recorded elements
fit. -/
theorem Within.consecutiveFrom (within : locations.Within (2 ^ 63))
    (found : locations.orderedStart key provided = .ok origin) :
    locations.ConsecutiveFrom key provided origin :=
  consecutiveFrom_of_sum_lt found fun element _ _ located => by
    have originSmall := (orderedStart_eq_ok found).1.position_lt within
    have elementSmall := located.element_lt within
    omega

end Locations

/-! ## Rows of a bucket -/

/-- A row has the iteration and the key of a chosen one, and an entry with the
position of each chosen element, in order. -/
structure BucketRow.Locates (locations : Locations)
    (chosen : Nat × Nat × IndexSet) (row : BucketRow) : Prop where
  iteration : row.iteration = chosen.1
  key : row.key = chosen.2.1
  entries : List.Forall₂
    (fun element entry =>
      entry.1 = element ∧ locations.At chosen.2.1 element entry.2)
    chosen.2.2.toList row.entries

namespace BucketRow

variable {locations : Locations} {iteration key : Nat} {provided : IndexSet}
  {row : BucketRow}

/-- A located row has an entry for each element of its key, in order. -/
theorem locate_eq_ok
    (found : locate locations iteration key provided = .ok row) :
    row.Locates locations (iteration, key, provided) := by
  rw [locate, bind_eq_ok_iff] at found
  obtain ⟨positions, recorded, found⟩ := found
  rw [bind_eq_ok_iff] at found
  obtain ⟨entries, visited, found⟩ := found
  cases found
  refine ⟨rfl, rfl, (mapM_eq_ok_iff.mp visited).imp ?_⟩
  intro element entry single
  split at single
  · next position located =>
    cases single
    exact ⟨rfl, positions, Locations.find_eq_ok_iff.mp recorded, located⟩
  · cases single

end BucketRow

namespace KeyElements

variable {elements : KeyElements} {locations : Locations}
  {detector : Detector}

theorem mem_rows {iteration key : Nat} {provided : IndexSet} :
    (iteration, key, provided) ∈ rows elements ↔
      elements.entries[iteration]? = some (key, provided) := by
  rw [rows, List.mem_map]
  constructor
  · rintro ⟨⟨⟨_, _⟩, _⟩, member, equal⟩
    cases equal
    exact List.mem_zipIdx_iff_getElem?.mp member
  · intro stored
    exact ⟨((key, provided), iteration),
      List.mem_zipIdx_iff_getElem?.mpr stored, rfl⟩

theorem rows_iterations (elements : KeyElements) :
    (rows elements).map (·.1) = List.range elements.entries.length := by
  rw [rows, List.map_map, List.range_eq_range']
  exact List.zipIdx_map_snd 0 elements.entries

theorem rows_keys (elements : KeyElements) :
    (rows elements).map (·.2.1) = elements.keyList := by
  rw [rows, List.map_map, IndexMap.keyList]
  conv_rhs => rw [← List.zipIdx_map_fst 0 elements.entries, List.map_map]
  rfl

theorem mem_counts {count : Nat} :
    count ∈ counts elements ↔
      ∃ key provided, elements.get? key = some provided ∧
        provided.size = count := by
  rw [counts, IndexSet.mem_toList, IndexSet.mem_ofList, List.mem_map]
  simp only [IndexMap.mem_values]
  constructor
  · rintro ⟨provided, ⟨key, stored⟩, sized⟩
    exact ⟨key, provided, stored, sized⟩
  · rintro ⟨key, provided, stored, sized⟩
    exact ⟨provided, ⟨key, stored⟩, sized⟩

end KeyElements

/-! ## Buckets -/

/-- A bucket has the keys that provide a number of elements, and copies each
of these elements from its place in the scratch buffer to its position. -/
structure ElementBucket.Serves (bucket : ElementBucket)
    (elements : KeyElements) (locations : Locations) (count : Nat) :
    Prop where
  keys : ∀ key, key ∈ bucket.keys ↔
    ∃ provided, elements.get? key = some provided ∧ provided.size = count
  length : bucket.elements.length = count
  copies : ∀ (rank : Nat) element, bucket.elements[rank]? = some element →
    ∃ points, element.Serves points ∧
      (∀ key, key ∈ points.map (·.key) ↔ key ∈ bucket.keys) ∧
      ∀ (iteration : Nat) key provided (source : Nat),
        elements.entries[iteration]? = some (key, provided) →
        provided.size = count → provided.toList[rank]? = some source →
          ∃ target, locations.At key source target ∧
            ⟨iteration, key, target, source⟩ ∈ points

/-- A bucket is gathered if it has the keys that provide a number of elements
and makes each of these elements from its points at these keys. -/
structure ElementBucket.Gathered (bucket : ElementBucket)
    (detector : Detector) (elements : KeyElements) (locations : Locations)
    (count : Nat) : Prop where
  keys : ∀ key, key ∈ bucket.keys ↔
    ∃ provided, elements.get? key = some provided ∧ provided.size = count
  length : bucket.elements.length = count
  points : ∀ (rank : Nat) element, bucket.elements[rank]? = some element →
    ∃ points, ElementPoint.Distinct points ∧
      element = ElementCopy.ofPoints detector points ∧
      (∀ key, key ∈ points.map (·.key) ↔ key ∈ bucket.keys) ∧
      ∀ (iteration : Nat) key provided (source : Nat),
        elements.entries[iteration]? = some (key, provided) →
        provided.size = count → provided.toList[rank]? = some source →
          ∃ target, locations.At key source target ∧
            ⟨iteration, key, target, source⟩ ∈ points

theorem ElementBucket.Gathered.serves {bucket : ElementBucket}
    {detector : Detector} {elements : KeyElements} {locations : Locations}
    {count : Nat} (reproduces : detector.Reproduces)
    (gathered : bucket.Gathered detector elements locations count) :
    bucket.Serves elements locations count where
  keys := gathered.keys
  length := gathered.length
  copies rank element stored := by
    obtain ⟨points, distinct, rfl, sameKeys, placed⟩ :=
      gathered.points rank element stored
    exact ⟨points, ElementCopy.ofPoints_serves reproduces distinct,
      sameKeys, placed⟩

namespace BucketRow

variable {rows : List BucketRow} {rank : Nat}

/-- If every row has an element at a rank, each gives one point. -/
theorem map_filterMap_point? {ofPoint : ElementPoint → Nat}
    {ofRow : BucketRow → Nat}
    (agree : ∀ row point, row.point? rank = some point →
      ofPoint point = ofRow row)
    (filled : ∀ row ∈ rows, rank < row.entries.length) :
    (rows.filterMap (·.point? rank)).map ofPoint = rows.map ofRow := by
  induction rows with
  | nil => rfl
  | cons row rest ih =>
    have inside := filled row List.mem_cons_self
    obtain ⟨point, found⟩ : ∃ point, row.point? rank = some point := by
      rw [point?, List.getElem?_eq_getElem inside]
      exact ⟨_, rfl⟩
    have step := List.filterMap_cons_some (l := rest)
      (f := (·.point? rank)) found
    rw [step, List.map_cons, List.map_cons, agree row point found,
      ih fun other member => filled other (List.mem_cons_of_mem _ member)]

theorem point?_key {row : BucketRow} {point : ElementPoint}
    (found : row.point? rank = some point) : point.key = row.key := by
  obtain ⟨entry, _, equal⟩ := Option.map_eq_some_iff.mp found
  rw [← equal]

theorem point?_iteration {row : BucketRow} {point : ElementPoint}
    (found : row.point? rank = some point) :
    point.iteration = row.iteration := by
  obtain ⟨entry, _, equal⟩ := Option.map_eq_some_iff.mp found
  rw [← equal]

end BucketRow

namespace KeyElements

variable {elements : KeyElements} {locations : Locations}
  {detector : Detector} {count : Nat} {bucket : ElementBucket}

/-- The rows of the keys that provide a number of elements. -/
def rowsOf (elements : KeyElements) (count : Nat) :
    List (Nat × Nat × IndexSet) :=
  (rows elements).filter fun (_, _, provided) => provided.size == count

theorem mem_rowsOf {iteration key : Nat} {provided : IndexSet} :
    (iteration, key, provided) ∈ rowsOf elements count ↔
      elements.entries[iteration]? = some (key, provided) ∧
        provided.size = count := by
  rw [rowsOf, List.mem_filter, mem_rows]
  simp

theorem mem_rowsOf_keys {key : Nat} :
    key ∈ (rowsOf elements count).map (·.2.1) ↔
      ∃ provided, elements.get? key = some provided ∧
        provided.size = count := by
  rw [List.mem_map]
  constructor
  · rintro ⟨⟨iteration, _, provided⟩, member, rfl⟩
    obtain ⟨stored, sized⟩ := mem_rowsOf.mp member
    exact ⟨provided, IndexMap.get?_eq_some_iff.mpr
      (List.mem_of_getElem? stored), sized⟩
  · rintro ⟨provided, stored, sized⟩
    obtain ⟨iteration, located⟩ := List.mem_iff_getElem?.mp
      (IndexMap.get?_eq_some_iff.mp stored)
    exact ⟨(iteration, key, provided), mem_rowsOf.mpr ⟨located, sized⟩, rfl⟩

theorem rowsOf_iterations_ascending (elements : KeyElements) (count : Nat) :
    ((rowsOf elements count).map (·.1)).Pairwise (· < ·) := by
  refine List.Pairwise.sublist (List.filter_sublist.map _) ?_
  rw [rows_iterations]
  exact List.pairwise_lt_range

theorem rowsOf_keys_ascending (elements : KeyElements) (count : Nat) :
    ((rowsOf elements count).map (·.2.1)).Pairwise (· < ·) := by
  refine List.Pairwise.sublist (List.filter_sublist.map _) ?_
  rw [rows_keys]
  exact elements.keys.ascending

/-- The rows of a bucket list the positions of the elements of its keys. -/
theorem bucket_eq_ok
    (found : KeyElements.bucket elements locations detector count =
      .ok bucket) :
    ∃ located, ElementBucket.ofRows detector count located = bucket ∧
      List.Forall₂ (BucketRow.Locates locations) (rowsOf elements count)
        located := by
  rw [KeyElements.bucket, bind_eq_ok_iff] at found
  obtain ⟨located, visited, equal⟩ := found
  cases equal
  exact ⟨located, rfl,
    (mapM_eq_ok_iff.mp visited).imp fun _ _ => BucketRow.locate_eq_ok⟩

/-- The located rows have the iterations and the keys of the chosen ones, and
an entry for each element. -/
theorem located_rows {located : List BucketRow}
    (related : List.Forall₂ (BucketRow.Locates locations)
      (rowsOf elements count) located) :
    located.map (·.iteration) = (rowsOf elements count).map (·.1) ∧
      located.map (·.key) = (rowsOf elements count).map (·.2.1) ∧
      ∀ row ∈ located, row.entries.length = count := by
  refine ⟨?_, ?_, ?_⟩
  · rw [← List.forall₂_eq_eq_eq, List.forall₂_map_left_iff,
      List.forall₂_map_right_iff]
    exact related.flip.imp fun _ _ locates => locates.iteration
  · rw [← List.forall₂_eq_eq_eq, List.forall₂_map_left_iff,
      List.forall₂_map_right_iff]
    exact related.flip.imp fun _ _ locates => locates.key
  · intro row member
    obtain ⟨⟨iteration, key, provided⟩, chosen, locates⟩ :=
      exists_left_of_mem related member
    rw [← locates.entries.length_eq]
    exact (mem_rowsOf.mp chosen).2

/-- The iterations and keys at one rank of a bucket are those of its keys. -/
theorem points_distinct {located : List BucketRow} {rank : Nat}
    (iterations : located.map (·.iteration) =
      (rowsOf elements count).map (·.1))
    (keys : located.map (·.key) = (rowsOf elements count).map (·.2.1))
    (filled : ∀ row ∈ located, rank < row.entries.length) :
    ((located.filterMap (·.point? rank)).map (·.iteration)).Nodup ∧
      ((located.filterMap (·.point? rank)).map (·.key)).Nodup := by
  rw [BucketRow.map_filterMap_point?
      (fun row point => BucketRow.point?_iteration) filled,
    BucketRow.map_filterMap_point?
      (fun row point => BucketRow.point?_key) filled, iterations, keys]
  exact ⟨(rowsOf_iterations_ascending elements count).imp Nat.ne_of_lt,
    (rowsOf_keys_ascending elements count).imp Nat.ne_of_lt⟩

theorem bucket_gathered
    (found : KeyElements.bucket elements locations detector count =
      .ok bucket) :
    bucket.Gathered detector elements locations count := by
  obtain ⟨located, rfl, related⟩ := bucket_eq_ok found
  obtain ⟨iterations, keys, sized⟩ := located_rows related
  constructor
  · intro key
    rw [ElementBucket.ofRows, IndexSet.mem_ofList, keys, mem_rowsOf_keys]
  · simp [ElementBucket.ofRows]
  · intro rank element stored
    obtain ⟨below, equal⟩ := List.getElem?_eq_some_iff.mp stored
    simp only [ElementBucket.ofRows, List.length_map, List.length_range]
      at below
    simp only [ElementBucket.ofRows, List.getElem_map, List.getElem_range]
      at equal
    subst equal
    have filled : ∀ row ∈ located, rank < row.entries.length := by
      intro row member
      rw [sized row member]
      exact below
    obtain ⟨onceEach, onceKey⟩ := points_distinct iterations keys filled
    refine ⟨_, ⟨onceEach, onceKey⟩, rfl, ?_, ?_⟩
    · intro key
      rw [BucketRow.map_filterMap_point?
        (fun row point => BucketRow.point?_key) filled,
        ElementBucket.ofRows, IndexSet.mem_ofList]
    · intro iteration key provided source present counted ranked
      obtain ⟨row, member, sameIteration, sameKey, entries⟩ :=
        exists_right_of_mem related (mem_rowsOf.mpr ⟨present, counted⟩)
      have inside := filled row member
      have answered := entries.get (i := rank)
        (by rw [entries.length_eq]; exact inside) inside
      obtain ⟨_, chosen⟩ := List.getElem?_eq_some_iff.mp ranked
      obtain ⟨sameSource, placed⟩ := answered
      simp only [List.get_eq_getElem, chosen] at sameSource placed
      refine ⟨row.entries[rank].2, placed, ?_⟩
      rw [List.mem_filterMap]
      refine ⟨row, member, ?_⟩
      rw [BucketRow.point?, List.getElem?_eq_getElem inside, Option.map_some]
      simp [sameIteration, sameKey, sameSource]

theorem buckets_eq_ok {buckets : IndexMap ElementBucket}
    (found : KeyElements.buckets elements locations detector = .ok buckets) :
    (∀ count bucket, buckets.get? count = some bucket →
      count ∈ counts elements ∧
        KeyElements.bucket elements locations detector count =
          .ok bucket) ∧
    ∀ key provided, elements.get? key = some provided →
      ∃ bucket, buckets.get? provided.size = some bucket := by
  rw [KeyElements.buckets, bind_eq_ok_iff] at found
  obtain ⟨entries, visited, equal⟩ := found
  cases equal
  have related : List.Forall₂
      (fun count (entry : Nat × ElementBucket) => entry.1 = count ∧
        KeyElements.bucket elements locations detector count = .ok entry.2)
      (counts elements) entries := by
    refine (mapM_eq_ok_iff.mp visited).imp fun count entry made => ?_
    rw [bind_eq_ok_iff] at made
    obtain ⟨bucket, made, equal⟩ := made
    cases equal
    exact ⟨rfl, made⟩
  have keys : entries.map (·.1) = counts elements := by
    rw [← List.forall₂_eq_eq_eq, List.forall₂_map_left_iff]
    exact related.flip.imp fun _ _ answers => answers.1
  have distinct : (entries.map (·.1)).Nodup := by
    rw [keys]
    exact IndexSet.nodup_toList _
  constructor
  · intro count bucket stored
    obtain ⟨other, occurs, same, made⟩ := exists_left_of_mem related
      ((IndexMap.get?_ofList distinct).mp stored)
    cases same
    exact ⟨occurs, made⟩
  · intro key provided stored
    obtain ⟨entry, member, same, _⟩ := exists_right_of_mem related
      (mem_counts.mpr ⟨key, provided, stored, rfl⟩)
    refine ⟨entry.2, (IndexMap.get?_ofList distinct).mpr ?_⟩
    rw [← same]
    exact member

end KeyElements

/-! ## The access of a group -/

/-- The buckets of an access sort the keys of a group by the number of elements
that they provide. -/
structure GroupAccess.Sorts (access : GroupAccess)
    (elements : KeyElements) : Prop where
  keys : access.keys = elements.keyList
  buckets : ∀ count bucket, access.buckets.get? count = some bucket →
    ∀ key, key ∈ bucket.keys ↔
      ∃ provided, elements.get? key = some provided ∧ provided.size = count
  occupied : ∀ count bucket, access.buckets.get? count = some bucket →
    ∃ key, key ∈ bucket.keys
  buffered : ∀ key provided, elements.get? key = some provided →
    ∃ bucket, access.buckets.get? provided.size = some bucket

/-- What the access of a group promises about the group's keys. -/
structure GroupAccess.Serves (access : GroupAccess)
    (elements : KeyElements) (locations : Locations) : Prop where
  inhabited : access.keys ≠ []
  keys : access.keys = elements.keyList
  keyPattern : ∀ pattern, access.keyPattern = some pattern →
    ∀ (iteration : Nat) key, access.keys[iteration]? = some key →
      pattern.evaluate iteration = Int64.ofNat key
  inPlace : ∀ start, access.start = some start →
    access.buckets = ∅ ∧
      ∀ (iteration : Nat) key provided,
        elements.entries[iteration]? = some (key, provided) →
          ∃ origin, start.evaluate iteration = Int64.ofNat origin ∧
            locations.orderedStart key provided = .ok origin
  serves : ∀ count bucket, access.buckets.get? count = some bucket →
    bucket.Serves elements locations count
  occupied : ∀ count bucket, access.buckets.get? count = some bucket →
    ∃ key, key ∈ bucket.keys
  buffered : access.start = none →
    ∀ key provided, elements.get? key = some provided →
      ∃ bucket, access.buckets.get? provided.size = some bucket

namespace GroupAccess

variable {access : GroupAccess} {elements : KeyElements}
  {locations : Locations}

/-- Buckets of different sizes have no key in common. -/
theorem Sorts.apart (sorts : access.Sorts elements) :
    access.buckets.values.Pairwise fun left right =>
      ∀ key, key ∈ left.keys → key ∉ right.keys := by
  refine List.pairwise_map.mpr ?_
  refine access.buckets.ascending.imp_of_mem ?_
  intro first second memFirst memSecond below key inFirst inSecond
  obtain ⟨provided, stored, sized⟩ := (sorts.buckets first.1 first.2
    (IndexMap.get?_eq_some_iff.mpr memFirst) key).mp inFirst
  obtain ⟨again, restored, resized⟩ := (sorts.buckets second.1 second.2
    (IndexMap.get?_eq_some_iff.mpr memSecond) key).mp inSecond
  rw [stored, Option.some.injEq] at restored
  rw [← sized, ← resized, restored] at below
  exact Nat.lt_irrefl _ below

theorem Serves.sorts (serves : access.Serves elements locations)
    (unplaced : access.start = none) : access.Sorts elements where
  keys := serves.keys
  buckets count bucket found := (serves.serves count bucket found).keys
  occupied := serves.occupied
  buffered := serves.buffered unplaced

end GroupAccess

namespace LoopGroup

variable {group : LoopGroup} {sparsity : Sparsity} {detector : Detector}
  {access : GroupAccess}

/-- Grouping takes one of two ways: the starts of all keys follow a pattern,
or the keys are put into buckets. -/
theorem access_eq_ok
    (found : group.access sparsity detector = .ok access) :
    access.keys = group.elements.keyList ∧ access.keys ≠ [] ∧
      access.keyPattern = detector.ofSequence access.keys ∧
      ((∃ starts start,
          KeyElements.starts group.elements sparsity.locations =
            .ok starts ∧
          detector.ofSequence starts = some start ∧
          access.start = some start ∧ access.buckets = ∅) ∨
        access.start = none ∧
          KeyElements.buckets group.elements sparsity.locations detector =
            .ok access.buckets) := by
  rw [LoopGroup.access] at found
  dsimp only at found
  split at found
  · cases found
  next inhabited =>
  have filled : group.elements.keyList ≠ [] := fun empty =>
    inhabited (List.isEmpty_iff.mpr empty)
  rw [bind_eq_ok_iff] at found
  obtain ⟨flags, _, found⟩ := found
  split at found
  · rw [bind_eq_ok_iff] at found
    obtain ⟨pattern, started, found⟩ := found
    obtain ⟨starts, visited, detected⟩ := map_eq_ok_iff.mp started
    cases pattern with
    | some start =>
      cases found
      exact ⟨rfl, filled, rfl,
        .inl ⟨starts, start, visited, detected, rfl, rfl⟩⟩
    | none =>
      rw [if_neg (by simp), bind_eq_ok_iff] at found
      obtain ⟨buckets, bucketed, found⟩ := found
      cases found
      exact ⟨rfl, filled, rfl, .inr ⟨rfl, bucketed⟩⟩
  · rw [bind_eq_ok_iff] at found
    obtain ⟨_, equal, found⟩ := found
    cases equal
    rw [if_neg (by simp), bind_eq_ok_iff] at found
    obtain ⟨buckets, bucketed, found⟩ := found
    cases found
    exact ⟨rfl, filled, rfl, .inr ⟨rfl, bucketed⟩⟩

/-- The buckets of a group are made from its keys, one for each number of
elements that some key provides. -/
theorem bucket_of_access
    (found : group.access sparsity detector = .ok access) {count : Nat}
    {bucket : ElementBucket}
    (stored : access.buckets.get? count = some bucket) :
    count ∈ KeyElements.counts group.elements ∧
      KeyElements.bucket group.elements sparsity.locations detector count =
        .ok bucket := by
  obtain ⟨_, _, _, ⟨_, _, _, _, _, empty⟩ | ⟨_, bucketed⟩⟩ :=
    access_eq_ok found
  · rw [empty, IndexMap.get?_empty] at stored
    cases stored
  · exact (KeyElements.buckets_eq_ok bucketed).1 count bucket stored

/-- The buckets of a group that does not write in place are gathered from the
points of its keys. -/
theorem access_gathered
    (found : group.access sparsity detector = .ok access) {count : Nat}
    {bucket : ElementBucket}
    (stored : access.buckets.get? count = some bucket) :
    bucket.Gathered detector group.elements sparsity.locations count ∧
      ∃ key, key ∈ bucket.keys := by
  obtain ⟨occurs, made⟩ := bucket_of_access found stored
  have gathered := KeyElements.bucket_gathered made
  obtain ⟨key, provided, located, sized⟩ := KeyElements.mem_counts.mp occurs
  exact ⟨gathered, key,
    (gathered.keys key).mpr ⟨provided, located, sized⟩⟩

/-- Each key of a group that does not write in place is in a bucket. -/
theorem access_buffered
    (found : group.access sparsity detector = .ok access)
    (unplaced : access.start = none) :
    ∀ key provided, group.elements.get? key = some provided →
      ∃ bucket, access.buckets.get? provided.size = some bucket := by
  obtain ⟨_, _, _, ⟨_, _, _, _, placed, _⟩ | ⟨_, bucketed⟩⟩ :=
    access_eq_ok found
  · rw [placed] at unplaced
    cases unplaced
  · exact (KeyElements.buckets_eq_ok bucketed).2

/-- The keys of a group that does not write in place are sorted into buckets,
whatever the detector answers. -/
theorem access_sorts
    (found : group.access sparsity detector = .ok access)
    (unplaced : access.start = none) : access.Sorts group.elements where
  keys := (access_eq_ok found).1
  buckets _ _ stored := (access_gathered found stored).1.keys
  occupied _ _ stored := (access_gathered found stored).2
  buffered := access_buffered found unplaced

/-- Grouping that succeeds serves its group. -/
theorem access_serves (reproduces : detector.Reproduces)
    (found : group.access sparsity detector = .ok access) :
    access.Serves group.elements sparsity.locations where
  inhabited := (access_eq_ok found).2.1
  keys := (access_eq_ok found).1
  keyPattern pattern detected := by
    rw [(access_eq_ok found).2.2.1] at detected
    exact reproduces.sequence _ _ detected
  inPlace start equal := by
    obtain ⟨_, _, _, ⟨starts, other, visited, detected, placed, empty⟩ |
      ⟨unplaced, _⟩⟩ := access_eq_ok found
    · rw [placed] at equal
      cases equal
      refine ⟨empty, fun iteration key provided stored => ?_⟩
      have related := mapM_eq_ok_iff.mp visited
      obtain ⟨origin, listed, started⟩ := exists_getElem? related stored
      exact ⟨origin, reproduces.sequence _ _ detected _ _ listed, started⟩
    · rw [unplaced] at equal
      cases equal
  serves _ _ stored := (access_gathered found stored).1.serves reproduces
  occupied _ _ stored := (access_gathered found stored).2
  buffered := access_buffered found

end LoopGroup

end SparseLoop
