import SparseLoop.Proofs.Expression.Reading
import SparseLoop.Proofs.Range.Guard

/-!
# The text of a guard

The text of a guard says what its ranges say: read as a C expression, it is true
at a value of the variable exactly if some range contains the value.

Each way to write a test binds more tightly than "or", so a guard of several
ranges is their disjunction.  A test with both bounds is "and", which binds more
tightly already; it is put in parentheses beside others all the same, and alone
it goes without.

This holds of the bounds of any list, also of ranges that contain nothing and of
a bound left over at its end.
-/

namespace SparseLoop

namespace IterationRange

section Readable

variable {ν : Type} {spell : ν → String} {variableName : ν}

/-- A test is readable, and beside others it binds more tightly than "or". -/
theorem test_isReadable (range : IterationRange) (isOnly : Bool)
    (identifier : IsIdentifier (spell variableName)) :
    (range.test variableName isOnly).IsReadable spell ∧
      (isOnly = false →
        Operator.either.rank < (range.test variableName isOnly).rank) := by
  have compared : ∀ (operator : Operator) (value : Int),
      (Expression.binary operator (.name variableName)
        (.number value)).IsReadable spell := fun operator value =>
    ⟨⟨Nat.le_of_lt operator.rank_lt_atomRank,
      Expression.rank_lt_number operator value⟩, identifier, trivial⟩
  have inside : (Expression.binary .both
      (.binary .atLeast (.name variableName) (.number range.low))
      (.binary .atMost (.name variableName)
        (.number range.high))).IsReadable spell :=
    ⟨by simp [Operator.rank], compared .atLeast _, compared .atMost _⟩
  rw [test]
  split
  · exact ⟨compared .equals _, fun _ => by simp [Operator.rank]⟩
  split
  · exact ⟨trivial, fun _ => Expression.rank_lt_number _ _⟩
  split
  · exact ⟨compared .atMost _, fun _ => by simp [Operator.rank]⟩
  split
  · exact ⟨compared .atLeast _, fun _ => by simp [Operator.rank]⟩
  split
  · next alone =>
    refine ⟨inside, fun several => ?_⟩
    rw [alone] at several
    cases several
  · exact ⟨inside, fun _ => Operator.either.rank_lt_atomRank⟩

/-- Joining further tests to a readable condition. -/
theorem foldl_either_isReadable (ranges : List IterationRange)
    (identifier : IsIdentifier (spell variableName))
    {condition : Expression ν} (readable : condition.IsReadable spell)
    (tight : Operator.either.rank ≤ condition.rank) :
    (ranges.foldl
      (fun condition range =>
        .binary .either condition (range.test variableName false))
      condition).IsReadable spell := by
  induction ranges generalizing condition with
  | nil => exact readable
  | cons range rest ih =>
    obtain ⟨tested, tighter⟩ := test_isReadable range false identifier
    exact ih ⟨⟨tight, tighter rfl⟩, readable, tested⟩ (Nat.le_refl _)

theorem guard?_isReadable {ranges : List IterationRange}
    (identifier : IsIdentifier (spell variableName))
    {condition : Expression ν}
    (guarded : guard? ranges variableName = some condition) :
    condition.IsReadable spell := by
  match ranges, guarded with
  | [only], guarded =>
    cases guarded
    exact (test_isReadable only true identifier).1
  | first :: second :: rest, guarded =>
    cases guarded
    obtain ⟨tested, tight⟩ := test_isReadable first false identifier
    exact foldl_either_isReadable (second :: rest) identifier tested
      (Nat.le_of_lt (tight rfl))

/-- A condition is spelled alike, whether its variable is a symbol or the
spelling of it. -/
theorem guard?_spell (ranges : List IterationRange) (spell : ν → String)
    (variableName : ν) :
    (guard? ranges (spell variableName)).map (·.text id) =
      (guard? ranges variableName).map (·.text spell) := by
  have tests : ∀ (range : IterationRange) (isOnly : Bool),
      (range.test (spell variableName) isOnly).text id =
        (range.test variableName isOnly).text spell := by
    intro range isOnly
    rw [test, test]
    split_ifs <;> rfl
  have joined : ∀ (ranges : List IterationRange)
      (condition : Expression String) (other : Expression ν),
      condition.text id = other.text spell →
        (ranges.foldl (fun condition range =>
          .binary .either condition
            (range.test (spell variableName) false)) condition).text id =
        (ranges.foldl (fun condition range =>
          .binary .either condition
            (range.test variableName false)) other).text spell := by
    intro ranges
    induction ranges with
    | nil => exact fun _ _ same => same
    | cons range rest ih =>
      intro condition other same
      refine ih _ _ ?_
      rw [Expression.text, Expression.text, same, tests]
  rcases ranges with _ | ⟨first, _ | ⟨second, rest⟩⟩
  · rfl
  · exact congrArg some (tests first true)
  · exact congrArg some (joined (second :: rest) _ _ (tests first false))

/-- The text of a guard is read as its condition. -/
theorem read?_guardText {ranges : List IterationRange}
    (identifier : IsIdentifier (spell variableName))
    {condition : Expression ν}
    (guarded : guard? ranges variableName = some condition) :
    Term.read? (guardText ranges (spell variableName)) =
      some (condition.term spell) := by
  have spelled := guard?_spell ranges spell variableName
  rw [guarded, Option.map_some, Option.map_eq_some_iff] at spelled
  obtain ⟨named, found, same⟩ := spelled
  rw [guardText, found]
  exact (congrArg Term.read? same).trans
    (Term.read?_text (guard?_isReadable identifier guarded))

end Readable

/-! ## Bounds -/

variable {bounds : List Nat}

theorem ofBounds_ne_nil (inhabited : bounds ≠ []) : ofBounds bounds ≠ [] := by
  match bounds, inhabited with
  | [_], _ => exact List.cons_ne_nil _ _
  | _ :: _ :: _, _ => exact List.cons_ne_nil _ _

/-- The bounds of ranges are those of the list. -/
theorem representable_of_mem_ofBounds
    (words : ∀ bound ∈ bounds, bound < 2 ^ 64) :
    ∀ range ∈ ofBounds bounds, range.Representable := by
  induction bounds using ofBounds.induct with
  | case1 =>
    intro range member
    cases member
  | case2 only =>
    intro range member
    obtain rfl := List.mem_singleton.mp member
    have small := words only List.mem_cons_self
    exact ⟨Nat.le_of_lt_succ small, Nat.le_of_lt_succ small⟩
  | case3 low high rest ih =>
    intro range member
    rcases List.mem_cons.mp member with rfl | later
    · exact ⟨Nat.le_of_lt_succ (words low (by simp)),
        Nat.le_of_lt_succ (words high (by simp))⟩
    · exact ih (fun bound among => words bound (by simp [among])) range later

variable {environment : Environment String} {variableName : String}
  {iteration : UInt64}

/-- The text of a guard over the ranges of some bounds is read as a condition
that is true at the iterations in one of the ranges, and false at all others. -/
theorem guardText_means_ranges (inhabited : bounds ≠ [])
    (words : ∀ bound ∈ bounds, bound < 2 ^ 64)
    (identifier : IsIdentifier variableName)
    (set : environment.word variableName = some iteration) :
    ∃ term word,
      Term.read? (guardText (ofBounds bounds) variableName) = some term ∧
      term.value? environment = some word ∧
      (word ≠ 0 ↔ covers (ofBounds bounds) iteration.toNat = true) := by
  have current : environment.word variableName =
      some (UInt64.ofNat iteration.toNat) := by
    rw [set, UInt64.ofNat_toNat]
  obtain ⟨condition, guarded, value⟩ :=
    value?_guard? (ofBounds_ne_nil inhabited)
      (representable_of_mem_ofBounds words)
      (Nat.le_of_lt_succ iteration.toNat_lt) current
  have readable : condition.IsReadable id :=
    guard?_isReadable identifier guarded
  refine ⟨condition.term id, _, ?_, (Term.value?_term id _ _).trans value, ?_⟩
  · rw [guardText, guarded]
    exact Term.read?_text readable
  · rw [← bne_iff_ne, Operator.truth_bne_zero]

/-- The guard over an odd number of bounds, of which two enclose nothing, is
true in its second range. -/
theorem oddBounds_mean_ranges :
    guardText (ofBounds [0, 1, 3, 5, 7, 2, 8]) "j" =
      "j <= 1 || (j >= 3 && j <= 5) || (j >= 7 && j <= 2) || j == 8" ∧
    (∀ bound ∈ [0, 1, 3, 5, 7, 2, 8], bound < 2 ^ 64) ∧
    IsIdentifier "j" ∧ (Environment.binding "j" 4).word "j" = some 4 ∧
    ∃ term word,
      Term.read?
          "j <= 1 || (j >= 3 && j <= 5) || (j >= 7 && j <= 2) || j == 8" =
        some term ∧
      term.value? (.binding "j" 4) = some word ∧ word ≠ 0 := by
  have words : ∀ bound ∈ [0, 1, 3, 5, 7, 2, 8], bound < 2 ^ 64 := by
    decide
  have identifier : IsIdentifier "j" := by decide
  have set := Environment.word_binding "j" 4
  have spelled : guardText (ofBounds [0, 1, 3, 5, 7, 2, 8]) "j" =
      "j <= 1 || (j >= 3 && j <= 5) || (j >= 7 && j <= 2) || j == 8" :=
    rfl
  obtain ⟨term, word, read, value, means⟩ :=
    guardText_means_ranges (List.cons_ne_nil _ _) words identifier set
  rw [spelled] at read
  exact ⟨spelled, words, identifier, set, term, word, read, value,
    means.mpr (by decide)⟩

end IterationRange

end SparseLoop
