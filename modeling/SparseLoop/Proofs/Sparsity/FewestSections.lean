import Mathlib.Data.List.Induction
import SparseLoop.Proofs.Pattern.Affine
import SparseLoop.Proofs.Sparsity.Plan

/-!
# Sections are as few as possible

The sections of an element are made greedily: a key joins the section before it
whenever the longer section still follows patterns on both sides.  With the
affine detector and small indices, following patterns means to lie on a line,
and a part of what lies on a line lies on it too.  For such properties the
greedy partition has the fewest parts.

The argument compares the greedy runs with the parts of any other partition.
The other partition may be behind, but never by a whole run: the part that
holds the first element of a greedy run cannot hold the whole run and the
element after it.
-/

namespace SparseLoop

open Traversal

/-! ## Greedy partitions -/

section Greedy

variable {α : Type} {joins : List α → Bool} {fine : List α → Prop}
  {whole before run rest : List α} {next : α} {others : List (List α)}

/-- Cuts a list into runs after a run that still grows.  An element joins the
run if that is empty or the longer run passes a test. -/
def greedyRuns (joins : List α → Bool) : List α → List α → List (List α)
  | run, [] => if run.isEmpty then [] else [run]
  | run, next :: rest =>
    if run.isEmpty || joins (run ++ [next]) then
      greedyRuns joins (run ++ [next]) rest
    else
      run :: greedyRuns joins [next] rest

theorem flatten_greedyRuns (joins : List α → Bool) (run rest : List α) :
    (greedyRuns joins run rest).flatten = run ++ rest := by
  induction rest generalizing run with
  | nil => cases run <;> simp [greedyRuns]
  | cons next rest ih =>
    rw [greedyRuns]
    split
    · rw [ih, List.append_assoc, List.singleton_append]
    · rw [List.flatten_cons, ih, List.singleton_append]

/-- A greedy run has an element, and more than one only if it passes the
test. -/
theorem mem_greedyRuns (run : List α)
    (tested : run.length ≤ 1 ∨ joins run = true) {made : List α}
    (among : made ∈ greedyRuns joins run rest) :
    made ≠ [] ∧ (made.length ≤ 1 ∨ joins made = true) := by
  induction rest generalizing run with
  | nil =>
    rw [greedyRuns] at among
    split at among
    · cases among
    · next filled =>
      obtain rfl := List.mem_singleton.mp among
      exact ⟨fun empty => filled (List.isEmpty_iff.mpr empty), tested⟩
  | cons next rest ih =>
    rw [greedyRuns] at among
    split at among
    · next joined =>
      refine ih _ ?_ among
      rcases Bool.or_eq_true_iff.mp joined with empty | passes
      · rw [List.isEmpty_iff.mp empty]
        exact .inl (Nat.le_refl 1)
      · exact .inr passes
    · next separate =>
      rcases List.mem_cons.mp among with rfl | later
      · exact ⟨fun empty => separate (by rw [empty]; rfl), tested⟩
      · exact ih [next] (.inl (Nat.le_refl 1)) later

/-- The first part of a partition does not reach over a run that cannot grow,
and the other parts make up the rest of the list. -/
theorem exists_tail_of_parts
    (mono : ∀ shorter longer : List α, shorter ⊆ longer → fine longer →
      fine shorter)
    (parts : others.flatten = before ++ run ++ next :: rest)
    (each : ∀ other ∈ others, fine other) (ends : ¬ fine (run ++ [next])) :
    ∃ (behind : List α) (tail : List (List α)),
      tail.length < others.length ∧ (∀ other ∈ tail, fine other) ∧
      tail.flatten = behind ++ [next] ++ rest := by
  cases others with
  | nil => simp at parts
  | cons first tail =>
    have later : ∀ other ∈ tail, fine other :=
      fun other member => each other (List.mem_cons_of_mem _ member)
    rw [List.flatten_cons] at parts
    rcases List.append_eq_append_iff.mp parts with
      ⟨behind, _, remains⟩ | ⟨beyond, reached, remains⟩
    · refine ⟨behind, tail, Nat.lt_succ_self _, later, ?_⟩
      rw [remains, List.append_assoc, List.singleton_append]
    · cases beyond with
      | nil => exact ⟨[], tail, Nat.lt_succ_self _, later, remains.symm⟩
      | cons other beyond =>
        obtain ⟨rfl, _⟩ := List.cons.inj remains
        have covered : run ++ [next] ⊆ first := by
          rw [reached]
          grind
        exact absurd (mono _ _ covered (each first List.mem_cons_self)) ends

/-- For a property that parts inherit, and that the test decides, no partition
into parts with the property has fewer parts than the greedy one. -/
theorem length_greedyRuns_le (before : List α)
    (mono : ∀ shorter longer : List α, shorter ⊆ longer → fine longer →
      fine shorter)
    (complete : ∀ made : List α, made.Sublist whole → made ≠ [] → fine made →
      joins made = true)
    (within : (run ++ rest).Sublist whole)
    (parts : others.flatten = before ++ run ++ rest)
    (each : ∀ other ∈ others, fine other) :
    (greedyRuns joins run rest).length ≤ others.length := by
  induction rest generalizing before run others with
  | nil =>
    rw [greedyRuns]
    split
    · exact Nat.zero_le _
    · next filled =>
      have some_part : others ≠ [] := by
        rintro rfl
        simp at parts
        simp [parts] at filled
      exact List.length_pos_iff.mpr some_part
  | cons next rest ih =>
    have regrouped : run ++ [next] ++ rest = run ++ next :: rest := by
      rw [List.append_assoc, List.singleton_append]
    rw [greedyRuns]
    split
    · refine ih before ?_ ?_ each
      · rw [regrouped]
        exact within
      · rw [parts, List.append_assoc, List.append_assoc, regrouped]
    · next separate =>
      have ends : ¬ fine (run ++ [next]) := by
        intro straight
        apply separate
        have member : (run ++ [next]).Sublist whole :=
          (List.sublist_append_left _ rest).trans (regrouped ▸ within)
        rw [complete _ member (by simp) straight, Bool.or_true]
      obtain ⟨behind, tail, shorter, later, remains⟩ :=
        exists_tail_of_parts mono parts each ends
      have rest_within : ([next] ++ rest).Sublist whole :=
        (List.sublist_append_right run _).trans within
      have fewer := ih behind rest_within remains later
      rw [List.length_cons]
      omega

end Greedy

/-! ## Sections as greedy runs -/

/-- One side of a run, as it is handed to a detector. -/
def ElementPoint.side (place : ElementPoint → Nat)
    (run : List ElementPoint) : IndexMap Nat :=
  IndexMap.ofList <| run.map fun point => (point.iteration, place point)

namespace OpenSection

/-- The open section of a run. -/
def ofRun (run : List ElementPoint) : OpenSection :=
  run.foldl add {}

theorem ofRun_append_singleton (run : List ElementPoint)
    (point : ElementPoint) : ofRun (run ++ [point]) = (ofRun run).add point := by
  rw [ofRun, List.foldl_append]
  rfl

/-- The open section of a run has its keys, and the points of either side as
they were put in. -/
theorem ofRun_eq (run : List ElementPoint) :
    ofRun run =
      { keys := IndexSet.ofList (run.map (·.key))
        targets := ElementPoint.side (·.target) run
        sources := ElementPoint.side (·.source) run } := by
  induction run using List.reverseRecOn with
  | nil => rfl
  | append_singleton run point ih =>
    rw [ofRun_append_singleton, ih]
    simp [add, ElementPoint.side, IndexMap.ofList, IndexSet.ofList,
      IndexSet.insertAll]

theorem isEmpty_keys_ofRun (run : List ElementPoint) :
    (ofRun run).keys.isEmpty = run.isEmpty := by
  rw [Bool.eq_iff_iff, IndexSet.isEmpty_iff, List.isEmpty_iff, ofRun_eq]
  simp only [IndexSet.mem_ofList]
  rw [← List.eq_nil_iff_forall_not_mem, List.map_eq_nil_iff]

end OpenSection

namespace ElementSection

open OpenSection

/-- Splitting cuts the points into greedy runs and closes each of them. -/
theorem splitAfter_eq (detector : Detector) (run rest : List ElementPoint) :
    splitAfter detector (ofRun run) rest =
      (greedyRuns (fun made => (ofRun made).followsPatterns detector) run
        rest).map fun made => (ofRun made).close detector := by
  induction rest generalizing run with
  | nil =>
    rw [splitAfter, greedyRuns, isEmpty_keys_ofRun]
    split <;> rfl
  | cons point rest ih =>
    rw [splitAfter, greedyRuns, isEmpty_keys_ofRun, ← ofRun_append_singleton]
    split
    · exact ih _
    · rw [List.map_cons, ← ih]
      rfl

theorem split_eq (detector : Detector) (points : List ElementPoint) :
    split detector points =
      (greedyRuns (fun made => (ofRun made).followsPatterns detector) []
        points).map fun made => (ofRun made).close detector :=
  splitAfter_eq detector [] points

end ElementSection

/-! ## Sections on lines -/

/-- A line over the integers. -/
structure Line where
  slope : Int
  offset : Int
deriving DecidableEq, Repr

/-- The value of a line at an iteration. -/
def Line.value (line : Line) (iteration : Nat) : Int :=
  line.slope * iteration + line.offset

/-- A pattern read as a line over the integers. -/
def IndexPattern.line (pattern : IndexPattern) : Line where
  slope := pattern.slope.toInt
  offset := pattern.offset.toInt

namespace Detector

variable {points : IndexMap Nat} {pattern : IndexPattern}

/-- What the affine detector finds for small points is a line over the
integers through them. -/
theorem liesOn_of_affine (small : ∀ point ∈ points.entries, IsSmall point)
    (detected : affine.ofPoints points = some pattern) :
    LiesOn points pattern.line.slope pattern.line.offset := by
  rw [affine_eq_some_iff] at detected
  rcases stored : points.entries with _ | ⟨first, _ | ⟨second, rest⟩⟩
  · rw [affineLine, stored] at detected
    cases detected
  · rw [affineLine, stored] at detected
    cases detected
    intro point member
    rw [stored, List.mem_singleton] at member
    subst member
    have index := Word.toInt_ofNat_of_small
      (small point (by simp [stored])).2
    simp [IndexPattern.line, IndexPattern.constant, index]
  · exact (liesOn_iff small stored).mpr ⟨pattern, detected, rfl, rfl⟩

/-- The affine detector finds a pattern for small points if there are any and
they lie on a line. -/
theorem affine_isSome_iff (small : ∀ point ∈ points.entries, IsSmall point)
    (inhabited : points.entries ≠ []) :
    (affine.ofPoints points).isSome = true ↔
      ∃ line : Line, LiesOn points line.slope line.offset := by
  constructor
  · intro found
    obtain ⟨pattern, detected⟩ := Option.isSome_iff_exists.mp found
    exact ⟨pattern.line, liesOn_of_affine small detected⟩
  · rintro ⟨line, through⟩
    rcases stored : points.entries with _ | ⟨first, _ | ⟨second, rest⟩⟩
    · exact absurd stored inhabited
    · have detected : affineLine points =
          .finds (IndexPattern.constant first.2) := by
        rw [affineLine, stored]
      rw [affine_eq_some_iff.mpr detected]
      rfl
    · obtain ⟨pattern, detected, -⟩ := (liesOn_iff small stored).mp through
      rw [affine_eq_some_iff.mpr detected]
      rfl

end Detector

/-- Both sides of a run lie on lines. -/
def ElementPoint.Follow (target source : Line) (run : List ElementPoint) :
    Prop :=
  ∀ point ∈ run, (point.target : Int) = target.value point.iteration ∧
    (point.source : Int) = source.value point.iteration

/-- The iteration and both places of a point are far from the end of the
words. -/
structure ElementPoint.IsSmall (point : ElementPoint) : Prop where
  iteration : point.iteration < 2 ^ 31
  target : point.target < 2 ^ 31
  source : point.source < 2 ^ 31

/-- A run of small points in the order of their iterations and keys. -/
structure ElementPoint.Proceeds (run : List ElementPoint) : Prop where
  iterations : (run.map (·.iteration)).Pairwise (· < ·)
  keys : (run.map (·.key)).Pairwise (· < ·)
  small : ∀ point ∈ run, point.IsSmall

namespace ElementPoint

variable {run : List ElementPoint} {target source : Line}

theorem Proceeds.sublist {longer : List ElementPoint}
    (proceeds : Proceeds longer) (sublist : run.Sublist longer) :
    Proceeds run where
  iterations := proceeds.iterations.sublist (sublist.map _)
  keys := proceeds.keys.sublist (sublist.map _)
  small point member := proceeds.small point (sublist.subset member)

theorem Proceeds.entries_side (proceeds : Proceeds run)
    (place : ElementPoint → Nat) :
    (side place run).entries =
      run.map fun point => (point.iteration, place point) := by
  apply IndexMap.entries_ofList
  rw [List.pairwise_map]
  exact List.pairwise_map.mp proceeds.iterations

section Side

variable {place : ElementPoint → Nat}

theorem Proceeds.liesOn_side_iff (proceeds : Proceeds run) (line : Line) :
    Detector.LiesOn (side place run) line.slope line.offset ↔
      ∀ point ∈ run, (place point : Int) = line.value point.iteration := by
  rw [Detector.LiesOn, proceeds.entries_side, List.forall_mem_map]
  rfl

variable (small : ∀ point ∈ run, place point < 2 ^ 31)
include small

theorem Proceeds.isSmall_side (proceeds : Proceeds run) :
    ∀ entry ∈ (side place run).entries, Detector.IsSmall entry := by
  rw [proceeds.entries_side, List.forall_mem_map]
  exact fun point member =>
    ⟨(proceeds.small point member).iteration, small point member⟩

/-- What is found for a side is a line on which it lies. -/
theorem Proceeds.onLine_of_affine (proceeds : Proceeds run)
    {pattern : IndexPattern}
    (found : Detector.affine.ofPoints (side place run) = some pattern) :
    ∀ point ∈ run,
      (place point : Int) = pattern.line.value point.iteration :=
  (proceeds.liesOn_side_iff pattern.line).mp
    (Detector.liesOn_of_affine (proceeds.isSmall_side small) found)

/-- A pattern is found for a side if and only if it lies on a line. -/
theorem Proceeds.affine_side_isSome_iff (proceeds : Proceeds run)
    (filled : run ≠ []) :
    (Detector.affine.ofPoints (side place run)).isSome = true ↔
      ∃ line : Line, ∀ point ∈ run,
        (place point : Int) = line.value point.iteration := by
  have inhabited : (side place run).entries ≠ [] := by
    rw [proceeds.entries_side, ne_eq, List.map_eq_nil_iff]
    exact filled
  rw [Detector.affine_isSome_iff (proceeds.isSmall_side small) inhabited]
  simp only [proceeds.liesOn_side_iff]

end Side

/-- Following patterns means to lie on lines. -/
theorem Proceeds.followsPatterns_iff (proceeds : Proceeds run)
    (filled : run ≠ []) :
    (OpenSection.ofRun run).followsPatterns Detector.affine = true ↔
      ∃ target source, Follow target source run := by
  rw [OpenSection.followsPatterns, OpenSection.ofRun_eq, Bool.and_eq_true,
    proceeds.affine_side_isSome_iff
      (fun point member => (proceeds.small point member).target) filled,
    proceeds.affine_side_isSome_iff
      (fun point member => (proceeds.small point member).source) filled]
  constructor
  · rintro ⟨⟨target, targets⟩, source, sources⟩
    exact ⟨target, source,
      fun point member => ⟨targets point member, sources point member⟩⟩
  · rintro ⟨target, source, follow⟩
    exact ⟨⟨target, fun point member => (follow point member).1⟩,
      source, fun point member => (follow point member).2⟩

/-- The patterns of a section that follows patterns are lines through its
run. -/
theorem Proceeds.follow_close (proceeds : Proceeds run)
    (follows : (OpenSection.ofRun run).followsPatterns Detector.affine =
      true) :
    Follow ((OpenSection.ofRun run).close Detector.affine).target.line
      ((OpenSection.ofRun run).close Detector.affine).source.line run := by
  obtain ⟨targets, sources⟩ := Bool.and_eq_true_iff.mp follows
  obtain ⟨target, foundTarget⟩ := Option.isSome_iff_exists.mp targets
  obtain ⟨source, foundSource⟩ := Option.isSome_iff_exists.mp sources
  rw [OpenSection.close, OpenSection.patternOf, OpenSection.patternOf,
    foundTarget, foundSource]
  rw [OpenSection.ofRun_eq] at foundTarget foundSource
  have onTarget := proceeds.onLine_of_affine
    (fun point member => (proceeds.small point member).target) foundTarget
  have onSource := proceeds.onLine_of_affine
    (fun point member => (proceeds.small point member).source) foundSource
  exact fun point member => ⟨onTarget point member, onSource point member⟩

theorem follow_singleton (point : ElementPoint) :
    Follow ⟨0, point.target⟩ ⟨0, point.source⟩ [point] := by
  intro other member
  obtain rfl := List.mem_singleton.mp member
  simp [Line.value]

theorem Follow.mono {shorter : List ElementPoint}
    (follow : Follow target source run) (fewer : shorter ⊆ run) :
    Follow target source shorter :=
  fun point member => follow point (fewer member)

variable {points : List ElementPoint}

/-- The sections of small points cut them into runs, each of which lies on the
lines of its section. -/
theorem Proceeds.exists_runs (proceeds : Proceeds points) :
    ∃ runs : List (List ElementPoint), runs.flatten = points ∧
      List.Forall₂ (fun (part : ElementSection) run => run ≠ [] ∧
        part.keys.toList = run.map (·.key) ∧
        Follow part.target.line part.source.line run)
        (ElementSection.split Detector.affine points) runs := by
  refine ⟨_, flatten_greedyRuns (fun made =>
    (OpenSection.ofRun made).followsPatterns Detector.affine) [] points, ?_⟩
  rw [ElementSection.split_eq, List.forall₂_map_left_iff,
    List.forall₂_same]
  intro run among
  obtain ⟨filled, tested⟩ :=
    mem_greedyRuns [] (.inl (Nat.zero_le 1)) among
  have part : Proceeds run := by
    apply proceeds.sublist
    have whole := List.sublist_flatten_of_mem among
    rwa [flatten_greedyRuns] at whole
  have follows : (OpenSection.ofRun run).followsPatterns Detector.affine =
      true := by
    rcases tested with short | follows
    · obtain ⟨point, rfl⟩ := List.length_eq_one_iff.mp
        (Nat.le_antisymm short (List.length_pos_iff.mpr filled))
      exact (part.followsPatterns_iff filled).mpr
        ⟨_, _, follow_singleton point⟩
    · exact follows
  refine ⟨filled, ?_, part.follow_close follows⟩
  rw [OpenSection.close, OpenSection.ofRun_eq]
  exact IndexSet.eq_of_ascending_of_mem_iff (IndexSet.ascending _) part.keys
    fun key => IndexSet.mem_ofList

/-- Small points cannot be cut into fewer runs that lie on lines. -/
theorem Proceeds.length_split_le (proceeds : Proceeds points)
    {runs : List (List ElementPoint)} (parts : runs.flatten = points)
    (each : ∀ run ∈ runs, ∃ target source, Follow target source run) :
    (ElementSection.split Detector.affine points).length ≤ runs.length := by
  rw [ElementSection.split_eq, List.length_map]
  refine length_greedyRuns_le [] ?_ ?_ (List.Sublist.refl _) parts each
  · rintro shorter longer fewer ⟨target, source, follow⟩
    exact ⟨target, source, follow.mono fewer⟩
  · intro made sublist filled straight
    exact ((proceeds.sublist sublist).followsPatterns_iff filled).mpr straight

end ElementPoint

/-! ## The points of a bucket -/

/-- A point is the place of the element at a rank of its key: the key has the
point's iteration, and the element is recorded once. -/
def ElementPoint.IsPlace (elements : KeyElements) (locations : Locations)
    (rank : Nat) (point : ElementPoint) : Prop :=
  ∃ provided, elements.entries[point.iteration]? = some (point.key, provided) ∧
    provided.toList[rank]? = some point.source ∧
    locations.At point.key point.source point.target

/-- At a rank of some keys, both sides follow lines. -/
def KeyElements.Follow (elements : KeyElements) (locations : Locations)
    (rank : Nat) (target source : Line) (keys : List Nat) : Prop :=
  ∀ point : ElementPoint, point.IsPlace elements locations rank →
    point.key ∈ keys →
      (point.target : Int) = target.value point.iteration ∧
        (point.source : Int) = source.value point.iteration

namespace KeyElements

variable {elements : KeyElements} {locations : Locations}
  {detector : Detector} {count rank : Nat} {bucket : ElementBucket}
  {element : ElementCopy}

/-- A key has one place at a rank. -/
theorem place_unique {first second : ElementPoint}
    (placed : first.IsPlace elements locations rank)
    (again : second.IsPlace elements locations rank)
    (same : first.key = second.key) : first = second := by
  obtain ⟨iteration, key, target, source⟩ := first
  obtain ⟨otherIteration, otherKey, otherTarget, otherSource⟩ := second
  obtain ⟨provided, stored, ranked, located⟩ := placed
  obtain ⟨others, storedAgain, rankedAgain, locatedAgain⟩ := again
  simp only at same stored ranked located storedAgain rankedAgain locatedAgain
  subst same
  obtain rfl := IndexMap.value_unique (List.mem_of_getElem? stored)
    (List.mem_of_getElem? storedAgain)
  obtain rfl := (List.getElem?_inj
    (List.getElem?_eq_some_iff.mp stored).1 elements.nodup_entries).mp
      (stored.trans storedAgain.symm)
  rw [ranked, Option.some.injEq] at rankedAgain
  subst rankedAgain
  rw [located.unique locatedAgain]

/-- The points of an element of a bucket are the places at its rank, in the
order of the keys of the bucket. -/
theorem bucket_points
    (found : KeyElements.bucket elements locations detector count =
      .ok bucket)
    (stored : bucket.elements[rank]? = some element) :
    ∃ points, element = ElementCopy.ofPoints detector points ∧
      points.map (·.key) = bucket.keys.toList ∧
      (points.map (·.iteration)).Pairwise (· < ·) ∧
      ∀ point ∈ points, point.IsPlace elements locations rank := by
  obtain ⟨located, rfl, related⟩ := bucket_eq_ok found
  obtain ⟨iterations, keys, sized⟩ := located_rows related
  obtain ⟨below, rfl⟩ := List.getElem?_eq_some_iff.mp stored
  simp only [ElementBucket.ofRows, List.length_map, List.length_range]
    at below
  have filled : ∀ row ∈ located, rank < row.entries.length := by
    intro row member
    rw [sized row member]
    exact below
  have ascending : (located.map (·.key)).Pairwise (· < ·) := by
    rw [keys]
    exact rowsOf_keys_ascending elements count
  refine ⟨located.filterMap (·.point? rank), ?_, ?_, ?_, ?_⟩
  · simp [ElementBucket.ofRows]
  · rw [BucketRow.map_filterMap_point?
      (fun row point => BucketRow.point?_key) filled]
    exact IndexSet.eq_of_ascending_of_mem_iff ascending
      (IndexSet.ascending _) fun key => IndexSet.mem_ofList.symm
  · rw [BucketRow.map_filterMap_point?
      (fun row point => BucketRow.point?_iteration) filled, iterations]
    exact rowsOf_iterations_ascending elements count
  · intro point member
    obtain ⟨row, among, made⟩ := List.mem_filterMap.mp member
    obtain ⟨⟨iteration, key, provided⟩, chosen, sameIteration, sameKey,
      entries⟩ := exists_left_of_mem related among
    obtain ⟨⟨source, target⟩, present, rfl⟩ := Option.map_eq_some_iff.mp made
    obtain ⟨other, ranked, rfl, placed⟩ := exists_getElem? entries.flip present
    refine ⟨provided, ?_, ranked, ?_⟩
    · rw [sameIteration, sameKey]
      exact (mem_rowsOf.mp chosen).1
    · rw [sameKey]
      exact placed

/-- Among the places at a rank, a key is as good as its point. -/
theorem follow_iff {points : List ElementPoint}
    (placed : ∀ point ∈ points, point.IsPlace elements locations rank)
    (target source : Line) {run : List ElementPoint}
    (among : run ⊆ points) :
    elements.Follow locations rank target source (run.map (·.key)) ↔
      ElementPoint.Follow target source run := by
  constructor
  · intro follow point member
    exact follow point (placed point (among member))
      (List.mem_map_of_mem member)
  · intro follow point isPlace member
    obtain ⟨other, inside, same⟩ := List.mem_map.mp member
    rw [← place_unique (placed other (among inside)) isPlace same]
    exact follow other inside

end KeyElements

/-! ## The fewest sections -/

/-- A partition of an image comes from a partition. -/
theorem exists_flatten_of_map {α β : Type} {change : α → β}
    {runs : List (List β)} {points : List α}
    (parts : runs.flatten = points.map change) :
    ∃ lifted : List (List α), lifted.flatten = points ∧
      lifted.map (List.map change) = runs := by
  induction runs generalizing points with
  | nil =>
    exact ⟨[], (List.map_eq_nil_iff.mp parts.symm).symm, rfl⟩
  | cons run rest ih =>
    rw [List.flatten_cons] at parts
    obtain ⟨front, others, rfl, rfl, remains⟩ :=
      List.map_eq_append_iff.mp parts.symm
    obtain ⟨lifted, rfl, rfl⟩ := ih remains.symm
    exact ⟨front :: lifted, rfl, rfl⟩

/-- All keys of groups, recorded elements and positions are below two to the
thirty-first. -/
structure Sparsity.IsSmall (sparsity : Sparsity) : Prop where
  keys : ∀ group ∈ sparsity.groups, ∀ key ∈ group.elements.keyList,
    key < 2 ^ 31
  locations : sparsity.locations.Within (2 ^ 31)

namespace Sparsity

variable {sparsity : Sparsity} {plan : CallPlan}

/-- The places of a small description are small: an iteration is no larger than
its key. -/
theorem IsSmall.of_isPlace (small : sparsity.IsSmall) {served : LoopGroup}
    (member : served ∈ sparsity.groups) {rank : Nat} {point : ElementPoint}
    (placed : point.IsPlace served.elements sparsity.locations rank) :
    point.IsSmall := by
  obtain ⟨provided, stored, -, located⟩ := placed
  refine ⟨?_, located.position_lt small.locations,
    located.element_lt small.locations⟩
  have listed : served.elements.keyList[point.iteration]? =
      some point.key := by
    rw [IndexMap.keyList, List.getElem?_map, stored]
    rfl
  obtain ⟨inside, equal⟩ := List.getElem?_eq_some_iff.mp listed
  have reached := IndexSet.le_getElem_of_ascending
    served.elements.keys.ascending inside
  have below := small.keys served member _ (List.getElem_mem inside)
  exact Nat.lt_of_le_of_lt reached below

/-- An element of a bucket without patterns of its own has sections that are
runs of consecutive keys of the bucket, in order, and leave out no key.  In each
section both sides lie on the lines of the section.  There are no fewer
sections than parts in any other partition of the keys into runs in which both
sides lie on lines. -/
theorem sections_are_fewest (small : sparsity.IsSmall)
    (planned : sparsity.callPlan Detector.affine = .ok plan)
    {count loop group : Nat} {access : GroupAccess}
    (called : (count, loop, group, access) ∈ plan.calls) {size : Nat}
    {bucket : ElementBucket} (stored : access.buckets.get? size = some bucket)
    {rank : Nat} {element : ElementCopy}
    (present : bucket.elements[rank]? = some element)
    (indirect : element.direct? = none) :
    ∃ served ∈ sparsity.groups, served.loop = loop ∧ served.group = group ∧
      (∀ key ∈ bucket.keys, ∃ point : ElementPoint,
        point.IsPlace served.elements sparsity.locations rank ∧
          point.key = key) ∧
      (∀ part ∈ element.sections, part.keys.toList ≠ []) ∧
      (element.sections.map (·.keys.toList)).flatten = bucket.keys.toList ∧
      (∀ part ∈ element.sections,
        served.elements.Follow sparsity.locations rank part.target.line
          part.source.line part.keys.toList) ∧
      ∀ runs : List (List Nat), runs.flatten = bucket.keys.toList →
        (∀ run ∈ runs, ∃ target source,
          served.elements.Follow sparsity.locations rank target source run) →
        element.sections.length ≤ runs.length := by
  obtain ⟨served, member, sameLoop, sameGroup, found, -⟩ :=
    (mem_calls_callPlan planned).mp called
  obtain ⟨_, made⟩ := LoopGroup.bucket_of_access found stored
  obtain ⟨points, rfl, keys, ascending, placed⟩ :=
    KeyElements.bucket_points made present
  have proceeds : ElementPoint.Proceeds points :=
    ⟨ascending, keys ▸ bucket.keys.ascending,
      fun point inside => small.of_isPlace member (placed point inside)⟩
  rw [ElementCopy.sections_ofPoints indirect]
  obtain ⟨cut, whole, related⟩ := proceeds.exists_runs
  have among : ∀ run ∈ cut, run ⊆ points := by
    intro run inside
    rw [← whole]
    exact (List.sublist_flatten_of_mem inside).subset
  have listed : (ElementSection.split Detector.affine points).map
      (·.keys.toList) = cut.map (List.map (·.key)) := by
    rw [← List.forall₂_eq_eq_eq, List.forall₂_map_left_iff,
      List.forall₂_map_right_iff]
    exact related.imp fun _ _ made => made.2.1
  refine ⟨served, member, sameLoop, sameGroup, ?_, ?_, ?_, ?_, ?_⟩
  · intro key inside
    rw [← IndexSet.mem_toList, ← keys] at inside
    obtain ⟨point, held, same⟩ := List.mem_map.mp inside
    exact ⟨point, placed point held, same⟩
  · intro part inside
    obtain ⟨run, _, filled, equal, _⟩ := exists_right_of_mem related inside
    rw [equal, ne_eq, List.map_eq_nil_iff]
    exact filled
  · rw [listed, ← List.map_flatten, whole, keys]
  · intro part inside
    obtain ⟨run, made, _, equal, follow⟩ := exists_right_of_mem related inside
    rw [equal]
    exact (KeyElements.follow_iff placed _ _ (among run made)).mpr follow
  · intro runs parts each
    rw [← keys] at parts
    obtain ⟨lifted, rfl, rfl⟩ := exists_flatten_of_map parts
    rw [List.length_map]
    refine proceeds.length_split_le rfl fun run inside => ?_
    obtain ⟨target, source, follow⟩ := each _ (List.mem_map_of_mem inside)
    exact ⟨target, source, (KeyElements.follow_iff placed target source
      (List.sublist_flatten_of_mem inside).subset).mp follow⟩

/-- One group with six keys.  Key 2 has two elements and leaves a gap in the
iterations of the others, whose positions rise by two and then start anew. -/
def brokenRise : Sparsity where
  loopGroups := IndexMap.ofList
    [(0, IndexMap.ofList
      [(7, IndexMap.ofList
        [ (0, IndexSet.ofList [0]), (1, IndexSet.ofList [0]),
          (2, IndexSet.ofList [0, 1]), (3, IndexSet.ofList [0]),
          (4, IndexSet.ofList [0]), (5, IndexSet.ofList [0]) ])])]
  locations := IndexMap.ofList
    [ (0, [IndexSet.ofList [0]]), (1, [IndexSet.ofList [2]]),
      (2, [IndexSet.ofList [4], IndexSet.ofList [5]]),
      (3, [IndexSet.ofList [6]]), (4, [IndexSet.ofList [1]]),
      (5, [IndexSet.ofList [3]]) ]
  ordered := IndexMap.ofList <|
    [0, 1, 2, 3, 4, 5].map fun key => (key, false)
  entryCount := 7

/-- Two sections serve the keys with one element, across the gap, and one would
not do. -/
theorem brokenRise_needs_two_sections :
    brokenRise.IsSmall ∧
    ∃ plan access bucket element served,
      brokenRise.callPlan Detector.affine = .ok plan ∧
      (6, 0, 7, access) ∈ plan.calls ∧
      access.buckets.get? 1 = some bucket ∧
      bucket.elements[0]? = some element ∧ element.direct? = none ∧
      bucket.keys.toList = [0, 1, 3, 4, 5] ∧
      element.sections.map (·.keys.toList) = [[0, 1, 3], [4, 5]] ∧
      served ∈ brokenRise.groups ∧
      ∀ runs : List (List Nat), runs.flatten = [0, 1, 3, 4, 5] →
        (∀ run ∈ runs, ∃ target source,
          KeyElements.Follow served.elements brokenRise.locations 0 target
            source run) →
        2 ≤ runs.length := by
  have small : brokenRise.IsSmall :=
    ⟨by decide, Locations.within_of_entries (by decide)⟩
  have computed : (brokenRise.callPlan Detector.affine).map (fun plan =>
      plan.calls.map fun call =>
        (call.1, call.2.1, call.2.2.1,
          (call.2.2.2.buckets.get? 1).map fun bucket =>
            (bucket.keys.toList, bucket.elements[0]?.map fun element =>
              (element.direct?, element.sections.map (·.keys.toList))))) =
      .ok [(6, 0, 7,
        some ([0, 1, 3, 4, 5], some (none, [[0, 1, 3], [4, 5]])))] :=
    rfl
  obtain ⟨plan, planned, computed⟩ := map_eq_ok_iff.mp computed
  obtain ⟨⟨count, loop, group, access⟩, listed, equal⟩ :=
    List.map_eq_singleton_iff.mp computed
  simp only [Prod.mk.injEq] at equal
  obtain ⟨rfl, rfl, rfl, equal⟩ := equal
  obtain ⟨bucket, stored, equal⟩ := Option.map_eq_some_iff.mp equal
  obtain ⟨keys, equal⟩ := Prod.mk.inj equal
  obtain ⟨element, present, equal⟩ := Option.map_eq_some_iff.mp equal
  obtain ⟨indirect, sections⟩ := Prod.mk.inj equal
  have called : (6, 0, 7, access) ∈ plan.calls := by simp [listed]
  obtain ⟨served, member, _, _, _, _, _, _, fewest⟩ :=
    sections_are_fewest small planned called stored present indirect
  have count : element.sections.length = 2 := by
    rw [← List.length_map, sections]
    rfl
  rw [keys, count] at fewest
  exact ⟨small, plan, access, bucket, element, served, planned, called,
    stored, present, indirect, keys, sections, member, fewest⟩

end Sparsity

end SparseLoop
