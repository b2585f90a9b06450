import SparseLoop.Proofs.Expression
import SparseLoop.Range.Guard
import SparseLoop.Routine.Symbol

/-!
# The variables of an expression

The variables that occur in an expression bound those that its evaluation
reads: the right operand of a logical operator is not looked at where the left
one decides.  An expression without tables gets stuck only where it reads a
variable that is not set.

Patterns and guards are such expressions over a single variable.
-/

namespace SparseLoop

/-- All of some variables are set. -/
def Environment.Sets {ν : Type} (environment : Environment ν)
    (known : List ν) : Prop :=
  ∀ symbol ∈ known, ∃ word, environment.word symbol = some word

namespace Expression

variable {ν : Type} {environment : Environment ν} {known others : List ν}
  {expression left right : Expression ν}

/-- The variables that occur in an expression. -/
def variableNames : Expression ν → List ν
  | number _ => []
  | name symbol => [symbol]
  | entry _ index => index.variableNames
  | binary _ left right => left.variableNames ++ right.variableNames
  | grouped inner => inner.variableNames

/-- The tables that occur in an expression. -/
def tableNames : Expression ν → List ν
  | number _ | name _ => []
  | entry table index => table :: index.tableNames
  | binary _ left right => left.tableNames ++ right.tableNames
  | grouped inner => inner.tableNames

/-- The variables that an evaluation reads, in order, as far as it comes. -/
def variablesRead (environment : Environment ν) : Expression ν → List ν
  | number _ => []
  | name symbol => [symbol]
  | entry _ index => index.variablesRead environment
  | binary operator left right =>
    left.variablesRead environment ++
      match (left.value? environment).map operator.decided? with
      | some none => right.variablesRead environment
      | _ => []
  | grouped inner => inner.variablesRead environment

/-- Only variables that occur are read. -/
theorem variablesRead_subset (environment : Environment ν)
    (expression : Expression ν) :
    expression.variablesRead environment ⊆ expression.variableNames := by
  induction expression with
  | number => exact List.Subset.refl _
  | name => exact List.Subset.refl _
  | entry _ _ ih => exact ih
  | binary operator left right left_ih right_ih =>
    rw [variablesRead, variableNames]
    refine List.append_subset.mpr
      ⟨List.subset_append_of_subset_left _ left_ih, ?_⟩
    split
    · exact List.subset_append_of_subset_right _ right_ih
    · exact List.nil_subset _
  | grouped _ ih => exact ih

/-- An expression without tables has a value if the variables that its
evaluation reads are set. -/
theorem exists_value (tableless : expression.tableNames = [])
    (set : environment.Sets (expression.variablesRead environment)) :
    ∃ value, expression.value? environment = some value := by
  induction expression with
  | number value => exact ⟨_, rfl⟩
  | name symbol => exact set symbol (List.mem_singleton_self symbol)
  | entry => cases tableless
  | binary operator left right left_ih right_ih =>
    obtain ⟨leftTableless, rightTableless⟩ :=
      List.append_eq_nil_iff.mp tableless
    obtain ⟨first, leftValue⟩ := left_ih leftTableless fun symbol member =>
      set symbol (List.mem_append_left _ member)
    rw [variablesRead, leftValue, Option.map_some] at set
    rw [value?, leftValue]
    cases decides : operator.decided? first with
    | some decided => exact ⟨decided, by simp [decides]⟩
    | none =>
      obtain ⟨second, rightValue⟩ :=
        right_ih rightTableless fun symbol member =>
          set symbol (List.mem_append_right _ (by rwa [decides]))
      exact ⟨operator.apply first second, by simp [decides, rightValue]⟩
  | grouped _ ih => exact ih tableless set

/-! ## Expressions over some variables -/

/-- An expression without tables whose variables are among some. -/
structure IsOver (known : List ν) (expression : Expression ν) : Prop where
  tableless : expression.tableNames = []
  within : expression.variableNames ⊆ known

theorem IsOver.mono (confined : expression.IsOver known)
    (more : known ⊆ others) : expression.IsOver others :=
  ⟨confined.tableless, List.Subset.trans confined.within more⟩

theorem IsOver.exists_value (confined : expression.IsOver known)
    (set : environment.Sets known) :
    ∃ value, expression.value? environment = some value :=
  Expression.exists_value confined.tableless fun symbol member =>
    set symbol (confined.within (variablesRead_subset _ _ member))

theorem IsOver.variablesRead_subset (confined : expression.IsOver known)
    (environment : Environment ν) :
    expression.variablesRead environment ⊆ known :=
  List.Subset.trans (Expression.variablesRead_subset _ _) confined.within

theorem number_isOver (value : Int) (known : List ν) :
    (number value : Expression ν).IsOver known :=
  ⟨rfl, List.nil_subset _⟩

theorem name_isOver (symbol : ν) : (name symbol).IsOver [symbol] :=
  ⟨rfl, List.Subset.refl _⟩

theorem IsOver.binary (operator : Operator) (first : left.IsOver known)
    (second : right.IsOver known) :
    (Expression.binary operator left right).IsOver known where
  tableless := List.append_eq_nil_iff.mpr ⟨first.tableless, second.tableless⟩
  within := List.append_subset.mpr ⟨first.within, second.within⟩

theorem IsOver.grouped (confined : expression.IsOver known) :
    expression.grouped.IsOver known :=
  ⟨confined.tableless, confined.within⟩

end Expression

open Expression

variable {ν : Type}

/-! ## Patterns -/

namespace IndexPattern

theorem multiple_isOver (factor : Int) (iteration : ν) :
    (multiple factor iteration).IsOver [iteration] := by
  rw [multiple]
  split
  · exact name_isOver iteration
  · exact (number_isOver _ _).binary _ (name_isOver iteration)

theorem expression_isOver (pattern : IndexPattern) (iteration : ν) :
    (pattern.expression iteration).IsOver [iteration] := by
  have scaled := multiple_isOver pattern.slope.toInt iteration
  rw [expression]
  split
  · exact number_isOver _ _
  split
  · exact (number_isOver _ _).binary _ (multiple_isOver _ iteration)
  split
  · exact scaled.binary _ (number_isOver _ _)
  split
  · exact scaled.binary _ (number_isOver _ _)
  · exact scaled

/-- In a group of one key nothing is read, and elsewhere the iteration
variable. -/
theorem current_isOver (pattern : IndexPattern) {isUnrolled : Bool}
    {known : List Symbol}
    (moving : isUnrolled = false → Symbol.iteration ∈ known) :
    (pattern.current isUnrolled).IsOver known := by
  rw [current]
  split
  · exact number_isOver _ _
  · next repeated =>
    refine (pattern.expression_isOver Symbol.iteration).mono ?_
    exact List.cons_subset.mpr
      ⟨moving (Bool.eq_false_iff.mpr repeated), List.nil_subset _⟩

end IndexPattern

/-! ## Guards -/

namespace IterationRange

theorem test_isOver (range : IterationRange) (variableName : ν)
    (isOnly : Bool) :
    (range.test variableName isOnly).IsOver [variableName] := by
  have compared : ∀ operator (bound : Int),
      (Expression.binary operator (.name variableName) (.number bound)).IsOver
        [variableName] := fun operator bound =>
    (name_isOver variableName).binary operator (number_isOver bound _)
  have between := (compared .atLeast range.low).binary .both
    (compared .atMost range.high)
  rw [test]
  split
  · exact compared _ _
  split
  · exact number_isOver _ _
  split
  · exact compared _ _
  split
  · exact compared _ _
  split
  · exact between
  · exact between.grouped

theorem foldl_either_isOver (ranges : List IterationRange) {variableName : ν}
    {condition : Expression ν} (confined : condition.IsOver [variableName]) :
    (ranges.foldl
      (fun condition range =>
        .binary .either condition (range.test variableName false))
      condition).IsOver [variableName] := by
  induction ranges generalizing condition with
  | nil => exact confined
  | cons range rest ih =>
    exact ih (confined.binary .either (range.test_isOver variableName false))

/-- A guard is over its variable. -/
theorem guard?_isOver {ranges : List IterationRange} {variableName : ν}
    {condition : Expression ν}
    (written : guard? ranges variableName = some condition) :
    condition.IsOver [variableName] := by
  match ranges with
  | [] => cases written
  | [only] =>
    cases written
    exact only.test_isOver variableName true
  | first :: second :: rest =>
    cases written
    exact foldl_either_isOver (second :: rest)
      (first.test_isOver variableName false)

/-- Some ranges have a guard. -/
theorem exists_guard? {ranges : List IterationRange}
    (inhabited : ranges ≠ []) (variableName : ν) :
    ∃ condition, guard? ranges variableName = some condition := by
  match ranges, inhabited with
  | [_], _ => exact ⟨_, rfl⟩
  | _ :: _ :: _, _ => exact ⟨_, rfl⟩

end IterationRange

end SparseLoop
