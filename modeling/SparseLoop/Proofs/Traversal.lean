import Mathlib.Data.List.Forall2

/-!
# Traversals that may fail

A traversal of a list by a function that may fail succeeds exactly if the
function succeeds on every element, and then gives the list of its answers.
Both lemmas state this as a relation between the two lists, element by
element.  A step after another succeeds exactly if both do.  A traversal that
fails has the failure of one of the elements.

Two computations fail alike if they have the same failures, whatever their
answers are.  Steps and traversals that fail alike element by element fail
alike as a whole.
-/

namespace SparseLoop.Traversal

variable {α β ε : Type}

theorem bind_eq_ok_iff {computed : Except ε α} {next : α → Except ε β}
    {result : β} :
    computed >>= next = .ok result ↔
      ∃ value, computed = .ok value ∧ next value = .ok result := by
  cases computed with
  | error failure =>
    constructor
    · intro succeeds
      cases succeeds
    · rintro ⟨_, absurdly, _⟩
      cases absurdly
  | ok value =>
    constructor
    · exact fun succeeds => ⟨value, rfl, succeeds⟩
    · rintro ⟨_, equal, succeeds⟩
      cases equal
      exact succeeds

/-- A computation that succeeds has an answer. -/
theorem exists_of_isOk {computed : Except ε α}
    (succeeds : computed.isOk = true) : ∃ answer, computed = .ok answer := by
  cases computed with
  | error failure => cases succeeds
  | ok answer => exact ⟨answer, rfl⟩

theorem map_eq_ok_iff {computed : Except ε α} {change : α → β}
    {result : β} :
    change <$> computed = .ok result ↔
      ∃ value, computed = .ok value ∧ change value = result := by
  cases computed <;> simp [Functor.map, Except.map]

theorem mapM_eq_some_iff
    {visit : α → Option β} {sources : List α} {answers : List β} :
    sources.mapM visit = some answers ↔
      List.Forall₂ (fun source answer => visit source = some answer)
        sources answers := by
  induction sources generalizing answers with
  | nil => simp [eq_comm]
  | cons first rest ih =>
    rw [List.mapM_cons]
    cases visited : visit first with
    | none => cases answers <;> simp [visited]
    | some found =>
      cases others : rest.mapM visit <;>
        cases answers <;> simp [visited, others, ← ih]

theorem mapM_eq_ok_iff
    {visit : α → Except ε β} {sources : List α} {answers : List β} :
    sources.mapM visit = .ok answers ↔
      List.Forall₂ (fun source answer => visit source = .ok answer)
        sources answers := by
  induction sources generalizing answers with
  | nil => simp [pure, Except.pure, eq_comm]
  | cons first rest ih =>
    rw [List.mapM_cons]
    cases visited : visit first with
    | error failure => cases answers <;> simp [visited, bind, Except.bind]
    | ok found =>
      cases others : rest.mapM visit <;> cases answers <;>
        simp [visited, others, bind, Except.bind, pure, Except.pure, ← ih]

theorem mapM_congr {m : Type → Type} [Monad m] [LawfulMonad m]
    {first second : α → m β} {sources : List α}
    (agree : ∀ source ∈ sources, first source = second source) :
    sources.mapM first = sources.mapM second := by
  induction sources with
  | nil => rfl
  | cons source rest ih =>
    rw [List.mapM_cons, List.mapM_cons, agree source (by simp),
      ih fun other member => agree other (by simp [member])]

/-- Answers for all elements of a list form a list of answers. -/
theorem exists_forall₂ {Answers : α → β → Prop} {sources : List α}
    (each : ∀ source ∈ sources, ∃ answer, Answers source answer) :
    ∃ answers, List.Forall₂ Answers sources answers := by
  induction sources with
  | nil => exact ⟨[], .nil⟩
  | cons source rest ih =>
    obtain ⟨answer, first⟩ := each source (by simp)
    obtain ⟨others, later⟩ := ih fun other member => each other (by simp [member])
    exact ⟨answer :: others, .cons first later⟩

theorem exists_right_of_mem {Answers : α → β → Prop} {sources : List α}
    {answers : List β} (related : List.Forall₂ Answers sources answers)
    {source : α} (member : source ∈ sources) :
    ∃ answer ∈ answers, Answers source answer := by
  induction related with
  | nil => simp at member
  | cons first _ ih =>
    rcases List.mem_cons.mp member with equal | later
    · subst equal
      exact ⟨_, List.mem_cons_self, first⟩
    · obtain ⟨answer, present, answers⟩ := ih later
      exact ⟨answer, List.mem_cons_of_mem _ present, answers⟩

theorem exists_left_of_mem {Answers : α → β → Prop} {sources : List α}
    {answers : List β} (related : List.Forall₂ Answers sources answers)
    {answer : β} (member : answer ∈ answers) :
    ∃ source ∈ sources, Answers source answer :=
  exists_right_of_mem related.flip member

/-- The answers of a traversal are those of the function on the elements. -/
theorem mem_of_mapM_eq_ok {visit : α → Except ε β} {sources : List α}
    {answers : List β} (visited : sources.mapM visit = .ok answers)
    {answer : β} :
    answer ∈ answers ↔ ∃ source ∈ sources, visit source = .ok answer := by
  have related := mapM_eq_ok_iff.mp visited
  constructor
  · exact exists_left_of_mem related
  · rintro ⟨source, member, found⟩
    obtain ⟨other, present, again⟩ := exists_right_of_mem related member
    rw [found, Except.ok.injEq] at again
    rwa [again]

/-- A traversal succeeds exactly if the function does on every element. -/
theorem exists_mapM_ok_iff {visit : α → Except ε β} {sources : List α} :
    (∃ answers, sources.mapM visit = .ok answers) ↔
      ∀ source ∈ sources, ∃ answer, visit source = .ok answer := by
  simp only [mapM_eq_ok_iff]
  constructor
  · rintro ⟨answers, related⟩ source member
    obtain ⟨answer, _, visited⟩ := exists_right_of_mem related member
    exact ⟨answer, visited⟩
  · exact fun each => exists_forall₂ each

/-- A traversal and a step after it that cannot fail succeed if the function
succeeds on every element. -/
theorem exists_mapM_bind_ok {γ : Type} {visit : α → Except ε β}
    {sources : List α} {next : List β → Except ε γ}
    (each : ∀ source ∈ sources, ∃ answer, visit source = .ok answer)
    (total : ∀ answers, ∃ result, next answers = .ok result) :
    ∃ result, sources.mapM visit >>= next = .ok result := by
  obtain ⟨answers, visited⟩ := exists_mapM_ok_iff.mpr each
  obtain ⟨result, succeeds⟩ := total answers
  exact ⟨result, bind_eq_ok_iff.mpr ⟨answers, visited, succeeds⟩⟩

/-- Related lists are related place by place. -/
theorem exists_getElem? {Answers : α → β → Prop} {sources : List α}
    {answers : List β} (related : List.Forall₂ Answers sources answers)
    {place : Nat} {source : α} (found : sources[place]? = some source) :
    ∃ answer, answers[place]? = some answer ∧ Answers source answer := by
  induction related generalizing place with
  | nil => simp at found
  | cons first _ ih =>
    cases place with
    | zero =>
      cases found
      exact ⟨_, rfl, first⟩
    | succ place => exact ih found

/-! ## Computations with the same failures -/

/-- Two computations fail alike if neither has a failure that the other has
not. -/
def FailAlike (first : Except ε α) (second : Except ε β) : Prop :=
  ∀ failure, first = .error failure ↔ second = .error failure

namespace FailAlike

variable {γ : Type} {first : Except ε α} {second : Except ε β}

theorem refl (computed : Except ε α) : FailAlike computed computed :=
  fun _ => Iff.rfl

theorem of_ok {value : α} {other : β} :
    FailAlike (.ok value : Except ε α) (.ok other : Except ε β) := by
  intro failure
  constructor <;> intro failed <;> cases failed

/-- Steps after computations that fail alike have to agree only where both
computations succeed. -/
theorem bind {δ : Type} {next : α → Except ε γ} {later : β → Except ε δ}
    (alike : FailAlike first second)
    (steps : ∀ value other, first = .ok value → second = .ok other →
      FailAlike (next value) (later other)) :
    FailAlike (first >>= next) (second >>= later) := by
  cases first with
  | error failure =>
    rw [(alike failure).mp rfl]
    intro other
    constructor <;> intro same <;> cases same <;> rfl
  | ok value =>
    cases second with
    | error failure => cases (alike failure).mpr rfl
    | ok other => exact steps value other rfl rfl

theorem mapM {visit : α → Except ε β} {other : α → Except ε γ}
    {sources : List α}
    (alike : ∀ source ∈ sources, FailAlike (visit source) (other source)) :
    FailAlike (sources.mapM visit) (sources.mapM other) := by
  induction sources with
  | nil => exact of_ok
  | cons source rest ih =>
    rw [List.mapM_cons, List.mapM_cons]
    refine (alike source List.mem_cons_self).bind fun _ _ _ _ => ?_
    refine (ih fun later member =>
      alike later (List.mem_cons_of_mem _ member)).bind fun _ _ _ _ => ?_
    exact of_ok

end FailAlike

end SparseLoop.Traversal
