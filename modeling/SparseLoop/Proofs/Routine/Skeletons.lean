import Mathlib.Data.List.Perm.Basic
import SparseLoop.Proofs.Branch.Skeleton
import SparseLoop.Proofs.Sparsity.Sections
import SparseLoop.Proofs.Traversal
import SparseLoop.Routine.CopyBack

/-!
# The skeletons of a bucket

The elements of a bucket that are copied in sections are gathered one by one
into skeletons.  An element joins the skeleton of its shape, or opens a new one
if no earlier element has this shape.

The invariant of this walk, `BucketCopies.Gathers`, says exactly which
skeletons there are: one for each shape of the elements so far, whose branch for
some keys holds the copies of the sections with these keys, in the order of the
elements.
-/

namespace SparseLoop

open Traversal

/-! ## Shapes of elements in sections -/

/-- Sections with keys of their own, of which none is empty. -/
structure ElementSection.IsPartition (sections : List ElementSection) :
    Prop where
  inhabited : ∀ part ∈ sections, ∃ key, key ∈ part.keys
  apart : sections.Pairwise fun left right =>
    ∀ key, key ∈ left.keys → key ∉ right.keys

theorem ElementSection.Cover.isPartition {sections : List ElementSection}
    {points : List ElementPoint} (cover : Cover sections points) :
    IsPartition sections where
  inhabited := cover.inhabited
  apart := cover.apart

namespace ElementCopy

open ElementSection (IsPartition)

variable {element : ElementCopy} {first : Nat} {iterations : IndexSet}

/-- The branches of the shape of an element, in the order of its sections. -/
def shapeEntries (element : ElementCopy) : List (Nat × IndexSet) :=
  element.sections.filterMap fun part =>
    part.keys.min?.map fun first => (first, part.keys)

theorem mem_shapeEntries :
    (first, iterations) ∈ element.shapeEntries ↔
      ∃ part ∈ element.sections, part.keys = iterations ∧
        iterations.min? = some first := by
  rw [shapeEntries, List.mem_filterMap]
  constructor
  · rintro ⟨part, among, found⟩
    obtain ⟨least, lowest, equal⟩ := Option.map_eq_some_iff.mp found
    cases equal
    exact ⟨part, among, rfl, lowest⟩
  · rintro ⟨part, among, rfl, lowest⟩
    exact ⟨part, among, by rw [lowest, Option.map_some]⟩

theorem shapeEntries_distinct (partition : IsPartition element.sections) :
    (element.shapeEntries.map (·.1)).Nodup := by
  refine List.pairwise_map.mpr (List.pairwise_filterMap.mpr ?_)
  refine partition.apart.imp ?_
  intro left right separate one fromLeft other fromRight equal
  obtain ⟨first, least, rfl⟩ := Option.map_eq_some_iff.mp fromLeft
  obtain ⟨second, lowest, rfl⟩ := Option.map_eq_some_iff.mp fromRight
  simp only at equal
  subst equal
  exact separate first (IndexSet.min?_eq_some_iff.mp least).1
    (IndexSet.min?_eq_some_iff.mp lowest).1

theorem shape_get? (partition : IsPartition element.sections) :
    element.shape.get? first = some iterations ↔
      ∃ part ∈ element.sections, part.keys = iterations ∧
        iterations.min? = some first := by
  rw [← mem_shapeEntries]
  exact IndexMap.get?_ofList (shapeEntries_distinct partition)

theorem shape_keyedByFirst (partition : IsPartition element.sections) :
    element.shape.KeyedByFirst := by
  intro first iterations found
  obtain ⟨_, _, _, least⟩ := (shape_get? partition).mp found
  exact least

/-- Each section is a branch of the shape of its element. -/
theorem exists_shape_get? (partition : IsPartition element.sections) :
    ∀ part ∈ element.sections,
      ∃ first, element.shape.get? first = some part.keys := by
  intro part among
  obtain ⟨key, inside⟩ := partition.inhabited part among
  cases least : part.keys.min? with
  | none => exact absurd inside (IndexSet.min?_eq_none_iff.mp least key)
  | some first =>
    exact ⟨first, (shape_get? partition).mpr ⟨part, among, rfl, least⟩⟩

theorem mem_shape_values (partition : IsPartition element.sections) :
    iterations ∈ element.shape.values ↔
      ∃ part ∈ element.sections, part.keys = iterations := by
  rw [IndexMap.mem_values]
  constructor
  · rintro ⟨first, found⟩
    obtain ⟨part, among, same, _⟩ := (shape_get? partition).mp found
    exact ⟨part, among, same⟩
  · rintro ⟨part, among, rfl⟩
    exact exists_shape_get? partition part among

/-- The branches of the shape of an element are the keys of its sections. -/
theorem shape_values_perm (partition : IsPartition element.sections) :
    element.shape.values.Perm (element.sections.map (·.keys)) := by
  have listed : element.shapeEntries.map (·.2) =
      element.sections.map (·.keys) := by
    rw [shapeEntries, List.map_filterMap, ← List.filterMap_eq_map]
    refine List.filterMap_congr fun part among => ?_
    obtain ⟨key, inside⟩ := partition.inhabited part among
    cases least : part.keys.min? with
    | none => exact absurd inside (IndexSet.min?_eq_none_iff.mp least key)
    | some first => rfl
  rw [← listed]
  exact (IndexMap.entries_ofList_perm
    (shapeEntries_distinct partition)).map (·.2)

/-- Elements have the same shape exactly if their sections have the same
keys, in any order. -/
theorem shape_eq_iff {other : ElementCopy}
    (partition : IsPartition element.sections)
    (others : IsPartition other.sections) :
    element.shape = other.shape ↔
      ∀ keys, (∃ part ∈ element.sections, part.keys = keys) ↔
        ∃ part ∈ other.sections, part.keys = keys := by
  constructor
  · intro same keys
    rw [← mem_shape_values partition, ← mem_shape_values others, same]
  · intro same
    apply IndexMap.ext_get?
    intro first
    apply Option.ext
    intro keys
    simp only [shape_get? partition, shape_get? others, ← and_assoc,
      exists_and_right]
    rw [same keys]

end ElementCopy

/-! ## The copies of sections -/

namespace BucketCopies

open ElementSection (IsPartition)

variable {isUnrolled : Bool} {shape : BranchShape} {keys : IndexSet}
  {bodies : IndexSet → List Copy} {element : ElementCopy}
  {elements : List ElementCopy} {parts : List ElementSection}

/-- The copy of a section. -/
def copyOf (isUnrolled : Bool) (part : ElementSection) : Copy :=
  Copy.ofPatterns isUnrolled part.target part.source

/-- The copies of the sections that contain a key. -/
def copiesAt (isUnrolled : Bool) (parts : List ElementSection)
    (key : Nat) : List Copy :=
  (parts.filter (·.keys.contains key)).map (copyOf isUnrolled)

/-- The copies of the sections that have some keys. -/
def copiesFor (isUnrolled : Bool) (parts : List ElementSection)
    (keys : IndexSet) : List Copy :=
  (parts.filter (·.keys = keys)).map (copyOf isUnrolled)

theorem copiesFor_append (first second : List ElementSection) :
    copiesFor isUnrolled (first ++ second) keys =
      copiesFor isUnrolled first keys ++
        copiesFor isUnrolled second keys := by
  rw [copiesFor, List.filter_append, List.map_append]
  rfl

/-- A section that contains a key is the only one that has its keys. -/
theorem copiesFor_eq_copiesAt (partition : IsPartition parts) {key : Nat}
    (known : ∃ part ∈ parts, part.keys = keys) (inside : key ∈ keys) :
    copiesFor isUnrolled parts keys = copiesAt isUnrolled parts key := by
  obtain ⟨part, among, rfl⟩ := known
  rw [copiesFor, copiesAt, ElementSection.filter_eq partition.apart among
    inside]
  congr 1
  rw [← ElementSection.filter_eq partition.apart among inside]
  refine List.filter_congr fun other member => ?_
  rw [Bool.eq_iff_iff, decide_eq_true_eq, IndexSet.contains_iff]
  constructor
  · intro same
    rw [same]
    exact inside
  · intro shared
    have alone :=
      ElementSection.filter_eq partition.apart member shared
    rw [ElementSection.filter_eq partition.apart among inside] at alone
    rw [List.singleton_inj.mp alone]

/-- A section of the shape goes into the branch of its keys. -/
theorem addSection_ofBodies (isUnrolled : Bool) {part : ElementSection}
    {first : Nat} (keyed : shape.KeyedByFirst)
    (known : shape.get? first = some part.keys) :
    addSection isUnrolled (Skeleton.ofBodies shape bodies) part =
      .ok (Skeleton.ofBodies shape fun keys =>
        bodies keys ++ copiesFor isUnrolled [part] keys) := by
  rw [addSection, keyed first part.keys known]
  show Skeleton.modifyBranch _ first (fun branch =>
    { branch with
      body := (· ++ [copyOf isUnrolled part]) branch.body }) = _
  rw [Skeleton.modifyBranch_ofBodies (· ++ [copyOf isUnrolled part]) keyed
    known]
  congr 2
  funext keys
  rw [copiesFor, List.filter_cons]
  by_cases same : keys = part.keys
  · simp [same]
  · simp [same, Ne.symm same]

theorem addSections_ofBodies (isUnrolled : Bool)
    (bodies : IndexSet → List Copy) (keyed : shape.KeyedByFirst)
    (known : ∀ part ∈ parts, ∃ first, shape.get? first = some part.keys) :
    parts.foldlM (addSection isUnrolled) (Skeleton.ofBodies shape bodies) =
      .ok (Skeleton.ofBodies shape fun keys =>
        bodies keys ++ copiesFor isUnrolled parts keys) := by
  induction parts generalizing bodies with
  | nil => simp [copiesFor, pure, Except.pure]
  | cons part rest ih =>
    obtain ⟨first, present⟩ := known part List.mem_cons_self
    have others := ih
      (fun keys => bodies keys ++ copiesFor isUnrolled [part] keys)
      fun other among => known other (List.mem_cons_of_mem _ among)
    rw [List.foldlM_cons, addSection_ofBodies isUnrolled keyed present]
    refine others.trans ?_
    congr 2
    funext keys
    rw [List.append_assoc, ← copiesFor_append, List.singleton_append]

/-! ## The walk over the elements -/

/-- The copies that elements of one shape share in the branch of some keys. -/
def sharedCopies (isUnrolled : Bool) (elements : List ElementCopy)
    (shape : BranchShape) (keys : IndexSet) : List Copy :=
  (elements.filter (·.shape = shape)).flatMap fun element =>
    copiesFor isUnrolled element.sections keys

theorem sharedCopies_append (isUnrolled : Bool)
    (elements : List ElementCopy) (element : ElementCopy)
    (shape : BranchShape) (keys : IndexSet) :
    sharedCopies isUnrolled (elements ++ [element]) shape keys =
      sharedCopies isUnrolled elements shape keys ++
        if element.shape = shape then
          copiesFor isUnrolled element.sections keys
        else
          [] := by
  rw [sharedCopies, List.filter_append, List.flatMap_append]
  by_cases same : element.shape = shape
  · simp [sharedCopies, same]
  · simp [sharedCopies, same]

/-- The skeletons of some elements: one for each of their shapes, with the
copies that the elements of this shape share. -/
structure Gathers (isUnrolled : Bool) (elements : List ElementCopy)
    (shapes : List BranchShape) (skeletons : Skeletons) : Prop where
  distinct : shapes.Nodup
  occurs : ∀ shape, shape ∈ shapes ↔
    ∃ element ∈ elements, element.shape = shape
  skeletons : skeletons = shapes.map fun shape =>
    Skeleton.ofBodies shape (sharedCopies isUnrolled elements shape)

namespace Gathers

variable {shapes : List BranchShape} {skeletons : Skeletons}

/-- A skeleton is found for the shape at its place. -/
theorem getElem?_of_find?
    (gathers : Gathers isUnrolled elements shapes skeletons)
    (keyed : ∀ shape ∈ shapes, shape.KeyedByFirst)
    (placed : shape.KeyedByFirst) {position : Nat}
    (found : Skeleton.find? skeletons shape = some position) :
    shapes[position]? = some shape := by
  obtain ⟨inside, same, _⟩ := List.findIdx?_eq_some_iff_getElem.mp found
  simp only [gathers.skeletons, List.getElem_map] at same
  rw [gathers.skeletons, List.length_map] at inside
  rw [List.getElem?_eq_getElem inside, Option.some.injEq]
  exact (Skeleton.hasShape_ofBodies_iff
    (keyed _ (List.getElem_mem inside)) placed).mp same

/-- Where no skeleton is found, the shape is new. -/
theorem fresh_of_find?
    (gathers : Gathers isUnrolled elements shapes skeletons)
    (placed : shape.KeyedByFirst)
    (missing : Skeleton.find? skeletons shape = none) : shape ∉ shapes := by
  intro among
  have missed := List.findIdx?_eq_none_iff.mp missing
  rw [gathers.skeletons] at missed
  have different := missed _ (List.mem_map_of_mem among)
  rw [(Skeleton.hasShape_ofBodies_iff placed placed).mpr rfl] at different
  cases different

/-- No copies are shared in a new shape. -/
theorem sharedCopies_of_fresh
    (gathers : Gathers isUnrolled elements shapes skeletons)
    (fresh : shape ∉ shapes) (keys : IndexSet) :
    sharedCopies isUnrolled elements shape keys = [] := by
  have unshared : elements.filter (·.shape = shape) = [] := by
    rw [List.filter_eq_nil_iff]
    intro element among same
    exact fresh ((gathers.occurs shape).mpr
      ⟨element, among, of_decide_eq_true same⟩)
  rw [sharedCopies, unshared, List.flatMap_nil]

/-- Placing a shape leaves the copies as they are and adds the shape if it is
new. -/
theorem placeShape
    (gathers : Gathers isUnrolled elements shapes skeletons)
    (keyed : ∀ shape ∈ shapes, shape.KeyedByFirst)
    (placed : shape.KeyedByFirst) :
    ∃ extended : List BranchShape, extended.Nodup ∧
      (∀ other, other ∈ extended ↔ other ∈ shapes ∨ other = shape) ∧
      extended[(BucketCopies.placeShape skeletons shape).1]? =
        some shape ∧
      (BucketCopies.placeShape skeletons shape).2 =
        extended.map fun shape =>
          Skeleton.ofBodies shape
            (sharedCopies isUnrolled elements shape) := by
  rw [BucketCopies.placeShape]
  cases found : Skeleton.find? skeletons shape with
  | some position =>
    have here := gathers.getElem?_of_find? keyed placed found
    refine ⟨shapes, gathers.distinct, fun other => ?_, here,
      gathers.skeletons⟩
    refine ⟨.inl, fun either => either.elim id fun equal => ?_⟩
    rw [equal]
    exact List.mem_of_getElem? here
  | none =>
    have fresh := gathers.fresh_of_find? placed found
    have empty : (⟨shape.mapValues fun keys => Branch.mk keys [], none⟩ :
        Skeleton (List Copy)) =
          Skeleton.ofBodies shape
            (sharedCopies isUnrolled elements shape) := by
      show Skeleton.ofBodies shape (fun _ => []) = _
      exact Skeleton.ofBodies_congr fun _ keys _ =>
        (gathers.sharedCopies_of_fresh fresh keys).symm
    refine ⟨shapes ++ [shape], ?_, ?_, ?_, ?_⟩
    · rw [List.nodup_append]
      refine ⟨gathers.distinct, List.nodup_singleton shape, ?_⟩
      intro other among last equal same
      rw [List.mem_singleton.mp equal] at same
      exact fresh (same ▸ among)
    · intro other
      rw [List.mem_append, List.mem_singleton]
    · rw [gathers.skeletons, List.length_map]
      exact List.getElem?_concat_length
    · rw [List.map_append, ← gathers.skeletons]
      simp only [List.map_cons, List.map_nil, ← empty]

end Gathers

/-- Where two functions differ at one element of a list only, the images of the
list differ at the place of this element. -/
theorem set_map_of_nodup {α β : Type} {values : List α} {first : α → β}
    (second : α → β) (distinct : values.Nodup) {position : Nat} {value : α}
    (here : values[position]? = some value)
    (elsewhere : ∀ other ∈ values, other ≠ value →
      first other = second other) :
    (values.map first).set position (second value) = values.map second := by
  obtain ⟨inside, atPosition⟩ := List.getElem?_eq_some_iff.mp here
  apply List.ext_getElem
  · simp
  · intro place within _
    rw [List.length_set, List.length_map] at within
    rw [List.getElem_set, List.getElem_map, List.getElem_map]
    split
    · next same =>
      subst same
      rw [atPosition]
    · next different =>
      refine elsewhere _ (List.getElem_mem within) fun equal => ?_
      exact different
        (distinct.getElem_inj_iff.mp (atPosition.trans equal.symm))

/-- The sections of an element are added to the skeleton of its shape. -/
theorem Gathers.addElement {shapes : List BranchShape}
    {skeletons : Skeletons}
    (gathers : Gathers isUnrolled elements shapes skeletons)
    (partitioned : ∀ element ∈ elements, IsPartition element.sections)
    (partition : IsPartition element.sections) :
    ∃ extended filled,
      BucketCopies.addElement isUnrolled skeletons element = .ok filled ∧
      Gathers isUnrolled (elements ++ [element]) extended filled := by
  have keyed : ∀ shape ∈ shapes, shape.KeyedByFirst := by
    intro shape among
    obtain ⟨other, present, rfl⟩ := (gathers.occurs shape).mp among
    exact ElementCopy.shape_keyedByFirst (partitioned other present)
  obtain ⟨extended, distinct, members, here, placed⟩ :=
    gathers.placeShape keyed (ElementCopy.shape_keyedByFirst partition)
  have folded := addSections_ofBodies isUnrolled
    (sharedCopies isUnrolled elements element.shape)
    (ElementCopy.shape_keyedByFirst partition)
    (ElementCopy.exists_shape_get? partition)
  have full : (fun keys => sharedCopies isUnrolled elements element.shape keys ++
      copiesFor isUnrolled element.sections keys) =
        sharedCopies isUnrolled (elements ++ [element]) element.shape := by
    funext keys
    rw [sharedCopies_append, if_pos rfl]
  rw [full] at folded
  refine ⟨extended,
    (BucketCopies.placeShape skeletons element.shape).2.set
      (BucketCopies.placeShape skeletons element.shape).1
      (Skeleton.ofBodies element.shape
        (sharedCopies isUnrolled (elements ++ [element]) element.shape)),
    ?_, distinct, ?_, ?_⟩
  · rw [BucketCopies.addElement]
    simp only [placed, List.getElem?_map, here, Option.map_some, folded]
    rfl
  · intro shape
    rw [members, gathers.occurs, eq_comm (a := shape)]
    simp only [List.mem_append, List.mem_singleton, or_and_right,
      exists_or, exists_eq_left]
  · rw [placed]
    refine set_map_of_nodup (fun shape => Skeleton.ofBodies shape
      (sharedCopies isUnrolled (elements ++ [element]) shape)) distinct here
      fun shape _ other => ?_
    refine Skeleton.ofBodies_congr fun _ keys _ => ?_
    rw [sharedCopies_append, if_neg (Ne.symm other), List.append_nil]

theorem Gathers.addElements {shapes : List BranchShape}
    {skeletons : Skeletons} {others : List ElementCopy}
    (gathers : Gathers isUnrolled elements shapes skeletons)
    (partitioned : ∀ element ∈ elements ++ others,
      IsPartition element.sections) :
    ∃ extended filled,
      others.foldlM (BucketCopies.addElement isUnrolled) skeletons =
        .ok filled ∧
      Gathers isUnrolled (elements ++ others) extended filled := by
  induction others generalizing elements shapes skeletons with
  | nil =>
    rw [List.append_nil]
    exact ⟨shapes, skeletons, rfl, gathers⟩
  | cons element rest ih =>
    obtain ⟨longer, next, added, nextGathers⟩ :=
      gathers.addElement
        (fun other among => partitioned other (List.mem_append_left _ among))
        (partitioned element (by simp))
    rw [List.append_cons] at partitioned ⊢
    obtain ⟨extended, filled, folded, filledGathers⟩ :=
      ih nextGathers partitioned
    refine ⟨extended, filled, ?_, filledGathers⟩
    rw [List.foldlM_cons, added]
    exact folded

/-- Elements in sections are gathered into one skeleton for each shape. -/
theorem exists_gathers (isUnrolled : Bool)
    (partitioned : ∀ element ∈ elements, IsPartition element.sections) :
    ∃ shapes skeletons,
      elements.foldlM (BucketCopies.addElement isUnrolled) [] =
        .ok skeletons ∧
      Gathers isUnrolled elements shapes skeletons := by
  have start : Gathers isUnrolled [] [] [] :=
    ⟨List.nodup_nil, by simp, rfl⟩
  exact start.addElements (by simpa using partitioned)

end BucketCopies

end SparseLoop
