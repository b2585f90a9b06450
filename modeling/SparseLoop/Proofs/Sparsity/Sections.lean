import SparseLoop.Proofs.Pattern.Detection
import SparseLoop.Sparsity.Section

/-!
# Sections cover the points of an element

The points of an element are visited in the order of their iterations, and no
two of them share an iteration or a key.  The sections made from them have keys
of their own and leave out no key, whatever the detector answers.  If its
patterns reproduce what they were found for, the sections also copy each point
between its two places.

The invariant of the walk is about the section that is still open.  It holds
exactly the points of a run, and it is steady: a run of more than one point
follows patterns.  A section can therefore be closed at any time, and a
constant is needed only for a run of one point.
-/

namespace SparseLoop

/-- A section copies a point if its patterns give the point's two places. -/
structure ElementSection.Copies (part : ElementSection)
    (point : ElementPoint) : Prop where
  target : part.target.evaluate point.iteration = Int64.ofNat point.target
  source : part.source.evaluate point.iteration = Int64.ofNat point.source

/-- Sections cover points if each point's key lies in exactly one of them,
and that one copies the point. -/
structure ElementSection.Cover (sections : List ElementSection)
    (points : List ElementPoint) : Prop where
  inhabited : ∀ part ∈ sections, ∃ key, key ∈ part.keys
  apart : sections.Pairwise fun left right =>
    ∀ key, key ∈ left.keys → key ∉ right.keys
  keys : ∀ key, (∃ part ∈ sections, key ∈ part.keys) ↔
    key ∈ points.map (·.key)
  copies : ∀ point ∈ points, ∀ part ∈ sections, point.key ∈ part.keys →
    part.Copies point

/-- An element is copied at all its points, along two patterns or in
sections that cover the points. -/
structure ElementCopy.Serves (element : ElementCopy)
    (points : List ElementPoint) : Prop where
  direct : ∀ target source, element.direct? = some (target, source) →
    element.sections = [] ∧
      ∀ point ∈ points,
        target.evaluate point.iteration = Int64.ofNat point.target ∧
          source.evaluate point.iteration = Int64.ofNat point.source
  sectioned : element.direct? = none →
    ElementSection.Cover element.sections points

/-- The pairs of patterns, of target and source, along which an element is
copied at a key. -/
def ElementCopy.rulesAt (element : ElementCopy) (key : Nat) :
    List (IndexPattern × IndexPattern) :=
  element.direct?.toList ++
    (element.sections.filter (·.keys.contains key)).map fun part =>
      (part.target, part.source)

/-- No two points share an iteration or a key. -/
structure ElementPoint.Distinct (points : List ElementPoint) : Prop where
  iterations : (points.map (·.iteration)).Nodup
  keys : (points.map (·.key)).Nodup

namespace ElementPoint.Distinct

variable {points others run rest : List ElementPoint} {point : ElementPoint}

theorem sublist (distinct : Distinct points)
    (sublist : others.Sublist points) : Distinct others where
  iterations := distinct.iterations.sublist (sublist.map _)
  keys := distinct.keys.sublist (sublist.map _)

/-- A point after a run has an iteration of its own. -/
theorem fresh (distinct : Distinct (run ++ point :: rest)) :
    ∀ earlier ∈ run, earlier.iteration ≠ point.iteration := by
  have separate := distinct.iterations
  rw [List.map_append, List.nodup_append] at separate
  intro earlier member
  exact separate.2.2 _ (List.mem_map_of_mem member) _ (by simp)

end ElementPoint.Distinct

variable {detector : Detector}

namespace OpenSection

variable {part : OpenSection} {run : List ElementPoint}
    {point : ElementPoint}

/-- An open section holds the points of a run. -/
structure Holds (part : OpenSection) (run : List ElementPoint) : Prop where
  keys : ∀ key, key ∈ part.keys ↔ key ∈ run.map (·.key)
  targets : ∀ iteration target,
    part.targets.get? iteration = some target ↔
      ∃ point ∈ run, point.iteration = iteration ∧ point.target = target
  sources : ∀ iteration source,
    part.sources.get? iteration = some source ↔
      ∃ point ∈ run, point.iteration = iteration ∧ point.source = source

/-- More than one point follows patterns. -/
def Steady (detector : Detector) (part : OpenSection)
    (run : List ElementPoint) : Prop :=
  run.length ≤ 1 ∨ part.followsPatterns detector = true

theorem holds_nil : Holds {} [] where
  keys _ := by simp
  targets _ _ := by simp
  sources _ _ := by simp

/-- What an insertion of a point at a fresh iteration holds. -/
theorem get?_insert_place {values : IndexMap Nat}
    (place : ElementPoint → Nat)
    (holds : ∀ iteration value, values.get? iteration = some value ↔
      ∃ point ∈ run, point.iteration = iteration ∧ place point = value)
    (fresh : ∀ earlier ∈ run, earlier.iteration ≠ point.iteration)
    (iteration value : Nat) :
    (values.insert point.iteration (place point)).get? iteration =
        some value ↔
      ∃ other ∈ run ++ [point],
        other.iteration = iteration ∧ place other = value := by
  rw [IndexMap.get?_insert]
  by_cases same : iteration = point.iteration
  · subst same
    rw [if_pos rfl, Option.some.injEq]
    constructor
    · intro equal
      exact ⟨point, by simp, rfl, equal⟩
    · rintro ⟨other, member, visited, equal⟩
      rcases List.mem_append.mp member with earlier | last
      · exact absurd visited (fresh other earlier)
      · rw [List.mem_singleton.mp last] at equal
        exact equal
  · rw [if_neg same, holds]
    constructor
    · rintro ⟨other, member, placed⟩
      exact ⟨other, List.mem_append_left _ member, placed⟩
    · rintro ⟨other, member, visited, equal⟩
      rcases List.mem_append.mp member with earlier | last
      · exact ⟨other, earlier, visited, equal⟩
      · rw [List.mem_singleton.mp last] at visited
        exact absurd visited.symm same

theorem Holds.add (holds : part.Holds run)
    (fresh : ∀ earlier ∈ run, earlier.iteration ≠ point.iteration) :
    (part.add point).Holds (run ++ [point]) where
  keys key := by
    rw [OpenSection.add, IndexSet.mem_insert, holds.keys, List.map_append,
      List.mem_append, or_comm]
    simp
  targets := get?_insert_place (·.target) holds.targets fresh
  sources := get?_insert_place (·.source) holds.sources fresh

theorem Holds.isEmpty_iff (holds : part.Holds run) :
    part.keys.isEmpty = true ↔ run = [] := by
  have members := List.eq_nil_iff_forall_not_mem (l := run.map (·.key))
  rw [List.map_eq_nil_iff] at members
  rw [members, IndexSet.isEmpty_iff]
  simp only [holds.keys]

/-- The pattern of a side gives every point of a run its place there. -/
theorem patternOf_reproduces (reproduces : detector.Reproduces)
    {values : IndexMap Nat} (place : ElementPoint → Nat)
    (holds : ∀ iteration value, values.get? iteration = some value ↔
      ∃ point ∈ run, point.iteration = iteration ∧ place point = value)
    (steady : run.length ≤ 1 ∨ (detector.ofPoints values).isSome = true)
    (member : point ∈ run) :
    (patternOf detector values).evaluate point.iteration =
      Int64.ofNat (place point) := by
  have stored : values.get? point.iteration = some (place point) :=
    (holds _ _).mpr ⟨point, member, rfl, rfl⟩
  rw [patternOf]
  cases found : detector.ofPoints values with
  | some pattern =>
    exact reproduces.points values pattern found _ _ stored
  | none =>
    -- Only a run of one point reaches the constant.
    have short : run.length ≤ 1 := by simpa [found] using steady
    have alone : ∀ other ∈ run, other = point := by
      intro other among
      obtain ⟨only, rfl⟩ := List.length_eq_one_iff.mp
        (Nat.le_antisymm short (List.length_pos_of_mem member))
      rw [List.mem_singleton.mp among, List.mem_singleton.mp member]
    rw [IndexPattern.evaluate_constant]
    have inhabited : values.values ≠ [] :=
      List.ne_nil_of_mem (IndexMap.mem_values.mpr ⟨_, stored⟩)
    obtain ⟨first, rest, listed⟩ := List.exists_cons_of_ne_nil inhabited
    have present : first ∈ values.values := by simp [listed]
    obtain ⟨iteration, located⟩ := IndexMap.mem_values.mp present
    obtain ⟨other, among, _, equal⟩ := (holds _ _).mp located
    rw [listed, List.headD_cons, ← equal, alone other among]

theorem Holds.close_copies (reproduces : detector.Reproduces)
    (holds : part.Holds run) (steady : part.Steady detector run)
    (member : point ∈ run) :
    (part.close detector).Copies point where
  target := by
    refine patternOf_reproduces reproduces (·.target) holds.targets ?_ member
    exact steady.imp_right fun follows => (Bool.and_eq_true_iff.mp follows).1
  source := by
    refine patternOf_reproduces reproduces (·.source) holds.sources ?_ member
    exact steady.imp_right fun follows => (Bool.and_eq_true_iff.mp follows).2

end OpenSection

namespace ElementSection

open OpenSection

/-- Sections divide points if each point's key lies in exactly one of them. -/
structure Divide (sections : List ElementSection)
    (points : List ElementPoint) : Prop where
  inhabited : ∀ part ∈ sections, ∃ key, key ∈ part.keys
  apart : sections.Pairwise fun left right =>
    ∀ key, key ∈ left.keys → key ∉ right.keys
  keys : ∀ key, (∃ part ∈ sections, key ∈ part.keys) ↔
    key ∈ points.map (·.key)

/-- A section is formed from some of the points if it closes an open section
that is steady and holds them. -/
structure FormedFrom (detector : Detector) (points : List ElementPoint)
    (part : ElementSection) : Prop where
  closes : ∃ (growing : OpenSection) (run : List ElementPoint),
    growing.Holds run ∧ growing.Steady detector run ∧
      (∀ point ∈ run, point ∈ points) ∧ growing.close detector = part

theorem FormedFrom.of_close {part : OpenSection} {run : List ElementPoint}
    (holds : part.Holds run) (steady : part.Steady detector run)
    (rest : List ElementPoint) :
    FormedFrom detector (run ++ rest) (part.close detector) where
  closes := ⟨part, run, holds, steady,
    fun _ member => List.mem_append_left _ member, rfl⟩

theorem FormedFrom.mono {points others : List ElementPoint}
    {part : ElementSection} (formed : FormedFrom detector points part)
    (more : ∀ point ∈ points, point ∈ others) :
    FormedFrom detector others part := by
  obtain ⟨growing, run, holds, steady, among, closed⟩ := formed.closes
  exact ⟨growing, run, holds, steady,
    fun point member => more point (among point member), closed⟩

theorem divide_nil : Divide [] [] where
  inhabited := by simp
  apart := .nil
  keys := by simp

/-- A section of some points goes in front of the sections of the others. -/
theorem Divide.cons {part : ElementSection} {sections : List ElementSection}
    {run rest : List ElementPoint} (divide : Divide sections rest)
    (inhabited : run ≠ [])
    (keys : ∀ key, key ∈ part.keys ↔ key ∈ run.map (·.key))
    (distinct : ((run ++ rest).map (·.key)).Nodup) :
    Divide (part :: sections) (run ++ rest) := by
  rw [List.map_append, List.nodup_append] at distinct
  obtain ⟨_, _, different⟩ := distinct
  constructor
  · intro other among
    rcases List.mem_cons.mp among with equal | later
    · obtain ⟨point, member⟩ := List.exists_mem_of_ne_nil run inhabited
      rw [equal]
      exact ⟨point.key, (keys _).mpr (List.mem_map_of_mem member)⟩
    · exact divide.inhabited other later
  · refine List.pairwise_cons.mpr ⟨?_, divide.apart⟩
    intro other among key here there
    have later := (divide.keys key).mp ⟨other, among, there⟩
    exact different key ((keys key).mp here) key later rfl
  · intro key
    rw [List.map_append, List.mem_append, ← divide.keys, ← keys]
    simp

/-- A key of one section lies in no other. -/
theorem filter_eq {sections : List ElementSection} {part : ElementSection}
    {key : Nat}
    (apart : sections.Pairwise fun left right =>
      ∀ key, key ∈ left.keys → key ∉ right.keys)
    (among : part ∈ sections) (shared : key ∈ part.keys) :
    sections.filter (·.keys.contains key) = [part] := by
  induction sections with
  | nil => cases among
  | cons first rest ih =>
    obtain ⟨elsewhere, apart⟩ := List.pairwise_cons.mp apart
    rcases List.mem_cons.mp among with equal | later
    · subst equal
      have others : rest.filter (·.keys.contains key) = [] := by
        rw [List.filter_eq_nil_iff]
        intro other member found
        exact elsewhere other member key shared
          (IndexSet.contains_iff.mp found)
      rw [List.filter_cons, if_pos (IndexSet.contains_iff.mpr shared),
        others]
    · have missing : ¬ first.keys.contains key = true := fun found =>
        elsewhere part later key (IndexSet.contains_iff.mp found) shared
      rw [List.filter_cons, if_neg missing, ih apart later]

/-- Splitting after a steady section that holds a run divides the run and all
further points, and forms each section from some of them. -/
theorem splitAfter_divides {part : OpenSection}
    {run rest : List ElementPoint} (holds : part.Holds run)
    (steady : part.Steady detector run)
    (distinct : ElementPoint.Distinct (run ++ rest)) :
    Divide (splitAfter detector part rest) (run ++ rest) ∧
      ∀ made ∈ splitAfter detector part rest,
        FormedFrom detector (run ++ rest) made := by
  induction rest generalizing part run with
  | nil =>
    rw [splitAfter]
    split
    · next empty =>
      rw [holds.isEmpty_iff.mp empty]
      exact ⟨divide_nil, by simp⟩
    · next filled =>
      have inhabited : run ≠ [] := fun empty =>
        filled (holds.isEmpty_iff.mpr empty)
      refine ⟨divide_nil.cons inhabited holds.keys distinct.keys, ?_⟩
      intro made among
      rw [List.mem_singleton.mp among]
      exact .of_close holds steady []
  | cons point rest ih =>
    have regrouped : run ++ point :: rest = (run ++ [point]) ++ rest := by
      simp
    have fresh := distinct.fresh
    rw [splitAfter]
    split
    · next joins =>
      have longer : (part.add point).Steady detector (run ++ [point]) := by
        rcases Bool.or_eq_true_iff.mp joins with empty | follows
        · rw [holds.isEmpty_iff.mp empty]
          exact .inl (Nat.le_refl 1)
        · exact .inr follows
      rw [regrouped] at distinct ⊢
      exact ih (holds.add fresh) longer distinct
    · next separate =>
      have filled : run ≠ [] := by
        intro empty
        apply separate
        rw [holds.isEmpty_iff.mpr empty, Bool.true_or]
      have later : ElementPoint.Distinct ([point] ++ rest) :=
        distinct.sublist (List.sublist_append_right run (point :: rest))
      have single : (OpenSection.add {} point).Holds [point] :=
        holds_nil.add (by simp)
      obtain ⟨divide, formed⟩ := ih single (.inl (Nat.le_refl 1)) later
      refine ⟨divide.cons filled holds.keys distinct.keys, ?_⟩
      intro made among
      rcases List.mem_cons.mp among with equal | others
      · rw [equal]
        exact .of_close holds steady (point :: rest)
      · exact (formed made others).mono fun point member =>
          List.mem_append_right _ member

/-- Splitting divides the points of an element, whatever a detector
answers. -/
theorem split_divides (detector : Detector) {points : List ElementPoint}
    (distinct : ElementPoint.Distinct points) :
    Divide (split detector points) points :=
  (splitAfter_divides holds_nil (.inl (Nat.zero_le 1)) distinct).1

theorem FormedFrom.copies (reproduces : detector.Reproduces)
    {points : List ElementPoint} {part : ElementSection}
    {point : ElementPoint} (formed : FormedFrom detector points part)
    (distinct : (points.map (·.key)).Nodup) (member : point ∈ points)
    (inside : point.key ∈ part.keys) : part.Copies point := by
  obtain ⟨growing, run, holds, steady, among, rfl⟩ := formed.closes
  obtain ⟨other, known, same⟩ :=
    List.mem_map.mp ((holds.keys point.key).mp inside)
  have equal : other = point :=
    List.inj_on_of_nodup_map distinct (among other known) member same
  exact holds.close_copies reproduces steady (equal ▸ known)

theorem split_cover (reproduces : detector.Reproduces)
    {points : List ElementPoint} (distinct : ElementPoint.Distinct points) :
    Cover (split detector points) points := by
  obtain ⟨divide, formed⟩ :=
    splitAfter_divides holds_nil (.inl (Nat.zero_le 1)) distinct
  exact ⟨divide.inhabited, divide.apart, divide.keys,
    fun point member part among =>
      (formed part among).copies reproduces distinct.keys member⟩

end ElementSection

namespace ElementCopy

theorem direct?_eq_some_iff {element : ElementCopy}
    {target source : IndexPattern} :
    element.direct? = some (target, source) ↔
      element.target = some target ∧ element.source = some source := by
  rw [direct?]
  split <;> simp_all

/-- An element is copied by one rule at each of its points. -/
theorem Serves.rulesAt_eq {element : ElementCopy}
    {points : List ElementPoint} (serves : element.Serves points)
    {point : ElementPoint} (member : point ∈ points) :
    ∃ target source, element.rulesAt point.key = [(target, source)] ∧
      target.evaluate point.iteration = Int64.ofNat point.target ∧
      source.evaluate point.iteration = Int64.ofNat point.source := by
  cases found : element.direct? with
  | some both =>
    obtain ⟨target, source⟩ := both
    obtain ⟨unsectioned, copies⟩ := serves.direct target source found
    refine ⟨target, source, ?_, copies point member⟩
    simp [rulesAt, found, unsectioned]
  | none =>
    have cover := serves.sectioned found
    obtain ⟨part, among, shared⟩ :=
      (cover.keys point.key).mpr (List.mem_map_of_mem member)
    have alone := ElementSection.filter_eq cover.apart among shared
    have copies := cover.copies point member part among shared
    refine ⟨part.target, part.source, ?_, copies.target, copies.source⟩
    simp [rulesAt, found, alone]

/-- An element without two patterns is copied in the sections of its
points. -/
theorem sections_ofPoints {points : List ElementPoint}
    (missing : (ofPoints detector points).direct? = none) :
    (ofPoints detector points).sections =
      ElementSection.split detector points := by
  rw [ofPoints]
  apply if_neg
  intro both
  obtain ⟨someTarget, someSource⟩ := Bool.and_eq_true_iff.mp both
  obtain ⟨target, foundTarget⟩ := Option.isSome_iff_exists.mp someTarget
  obtain ⟨source, foundSource⟩ := Option.isSome_iff_exists.mp someSource
  have direct : (ofPoints detector points).direct? =
      some (target, source) :=
    direct?_eq_some_iff.mpr ⟨foundTarget, foundSource⟩
  rw [missing] at direct
  cases direct

/-- However a detector answers, an element is copied at all its points. -/
theorem ofPoints_serves (reproduces : detector.Reproduces)
    {points : List ElementPoint} (distinct : ElementPoint.Distinct points) :
    (ofPoints detector points).Serves points := by
  have placed : ∀ (place : ElementPoint → Nat), ∀ point ∈ points,
      (IndexMap.ofList (points.map fun point =>
        (point.iteration, place point))).get? point.iteration =
          some (place point) := by
    intro place point member
    have separate : ((points.map fun point =>
        (point.iteration, place point)).map (·.1)).Nodup := by
      rw [List.map_map]
      exact distinct.iterations
    exact (IndexMap.get?_ofList separate).mpr (List.mem_map_of_mem member)
  constructor
  · intro target source both
    obtain ⟨foundTarget, foundSource⟩ := direct?_eq_some_iff.mp both
    constructor
    · have together : (detector.ofPoints (IndexMap.ofList (points.map
          fun point => (point.iteration, point.target)))).isSome = true ∧
          (detector.ofPoints (IndexMap.ofList (points.map
            fun point => (point.iteration, point.source)))).isSome = true :=
        ⟨Option.isSome_of_mem foundTarget, Option.isSome_of_mem foundSource⟩
      rw [ofPoints]
      simp [together]
    · intro point member
      exact ⟨reproduces.points _ _ foundTarget _ _
          (placed (·.target) point member),
        reproduces.points _ _ foundSource _ _
          (placed (·.source) point member)⟩
  · intro missing
    rw [sections_ofPoints missing]
    exact ElementSection.split_cover reproduces distinct

end ElementCopy

end SparseLoop
