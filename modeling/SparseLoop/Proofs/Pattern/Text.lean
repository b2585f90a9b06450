import Mathlib.Algebra.Group.Int.Defs
import SparseLoop.Proofs.Expression.Reading

/-!
# The text of a pattern

The text of a pattern computes the pattern: read as a C expression over 64-bit
unsigned words, it has the value of the pattern modulo two to the sixty-fourth,
at each value of the variable.

Over the integers the text has the value of the pattern too.  If that value is
not negative, then nothing in the text is: a falling pattern subtracts from its
offset, and a negative offset is subtracted from the multiple.  So an evaluation
over unsigned words wraps around nowhere on its way to a value that fits.  The
exception is the smallest word, whose sign cannot be turned.
-/

namespace SparseLoop

theorem Word.toNat_ofInt (value : Int) :
    ((UInt64.ofInt value).toNat : Int) = value % 2 ^ 64 := by
  rw [UInt64.ofInt, UInt64.toNat_ofNat']
  omega

namespace Term

variable {environment : Environment String}

/-- Each part of a term has a value over the integers, and none is negative. -/
def StaysNatural (environment : Environment String) (term : Term) : Prop :=
  ∀ part ∈ term.parts,
    ∃ value, part.integer? environment = some value ∧ 0 ≤ value

theorem staysNatural_literal (value : Nat) :
    (literal value).StaysNatural environment := by
  intro part member
  obtain rfl := List.mem_singleton.mp member
  exact ⟨value, rfl, Int.natCast_nonneg value⟩

theorem staysNatural_name {letters : String} {word : UInt64}
    (set : environment.word letters = some word) :
    (name letters).StaysNatural environment := by
  intro part member
  obtain rfl := List.mem_singleton.mp member
  exact ⟨word.toNat, by simp [integer?, set], Int.natCast_nonneg _⟩

variable {left right : Term} {first second : Int}

theorem integer?_binary (operator : Operator)
    (before : left.integer? environment = some first)
    (after : right.integer? environment = some second) :
    (binary operator left right).integer? environment =
      some (operator.onIntegers first second) := by
  rw [integer?, before, after]
  rfl

/-- Operands that stay natural and a result that is not negative. -/
theorem StaysNatural.binary {operator : Operator} {value : Int}
    (before : left.StaysNatural environment)
    (after : right.StaysNatural environment)
    (whole : (binary operator left right).integer? environment = some value)
    (natural : 0 ≤ value) :
    (Term.binary operator left right).StaysNatural environment := by
  intro part member
  rw [parts, List.mem_cons, List.mem_append] at member
  rcases member with rfl | inLeft | inRight
  · exact ⟨value, whole, natural⟩
  · exact before part inLeft
  · exact after part inRight

theorem integer?_number {ν : Type} (spell : ν → String) (value : Int) :
    ((Expression.number value).term spell).integer? environment =
      some value := by
  rw [Expression.term]
  split
  · have magnitude : value = -(value.natAbs : Int) := by omega
    conv_rhs => rw [magnitude]
    rfl
  · have magnitude : value = (value.natAbs : Int) := by omega
    conv_rhs => rw [magnitude]
    rfl

theorem staysNatural_number {ν : Type} (spell : ν → String) {value : Int}
    (natural : 0 ≤ value) :
    ((Expression.number value).term spell).StaysNatural environment := by
  rw [Expression.term, if_neg (Int.not_lt.mpr natural)]
  exact staysNatural_literal _

end Term

namespace IndexPattern

variable {environment : Environment String} {variableName : String}
  {iteration : UInt64}

/-! ## The parentheses of a pattern suffice -/

section Readable

variable {ν : Type} {spell : ν → String} {symbol : ν}

theorem multiple_isReadable (factor : Int)
    (identifier : IsIdentifier (spell symbol)) :
    (multiple factor symbol).IsReadable spell ∧
      Operator.times.rank ≤ (multiple factor symbol).rank := by
  rw [multiple]
  split
  · exact ⟨identifier, Nat.le_of_lt Operator.times.rank_lt_atomRank⟩
  · exact ⟨⟨⟨Nat.le_of_lt (Expression.rank_lt_number _ _),
      Operator.times.rank_lt_atomRank⟩, trivial, identifier⟩, Nat.le_refl _⟩

theorem expression_isReadable (pattern : IndexPattern)
    (identifier : IsIdentifier (spell symbol)) :
    (pattern.expression symbol).IsReadable spell := by
  have scaled : ∀ factor : Int,
      (multiple factor symbol).IsReadable spell ∧
        Operator.minus.rank < (multiple factor symbol).rank :=
    fun factor => (multiple_isReadable factor identifier).imp_right
      (Nat.lt_of_lt_of_le (by decide))
  obtain ⟨rising, looser⟩ := scaled pattern.slope.toInt
  rw [expression]
  split
  · trivial
  split
  · obtain ⟨falling, apart⟩ := scaled (-pattern.slope).toInt
    exact ⟨⟨Nat.le_of_lt (Expression.rank_lt_number _ _), apart⟩, trivial,
      falling⟩
  split
  · exact ⟨⟨Nat.le_of_lt looser, Expression.rank_lt_number _ _⟩, rising,
      trivial⟩
  split
  · exact ⟨⟨Nat.le_of_lt looser, Expression.rank_lt_number _ _⟩, rising,
      trivial⟩
  · exact rising

end Readable

/-! ## The value over the integers -/

theorem toInt_neg {word : Int64} (turnable : word ≠ Int64.minValue) :
    (-word).toInt = -word.toInt := by
  have low := word.le_toInt
  have high := word.toInt_lt
  have apart : word.toInt ≠ -2 ^ 63 := fun same =>
    turnable (Int64.toInt_inj.mp same)
  rw [Int64.toInt_neg]
  exact Int.bmod_eq_of_le (by omega) (by omega)

/-- A multiple has its value over the integers too, and nothing in it is
negative if the factor is not. -/
theorem integer?_multiple {factor : Int} (positive : 0 ≤ factor)
    (set : environment.word variableName = some iteration) :
    ((multiple factor variableName).term id).integer? environment =
        some (factor * iteration.toNat) ∧
      ((multiple factor variableName).term id).StaysNatural environment := by
  have current : (Term.name variableName).integer? environment =
      some (iteration.toNat : Int) := by
    rw [Term.integer?, set]
    rfl
  have named := Term.staysNatural_name set
  rw [multiple]
  split
  · next one =>
    rw [one, Int.one_mul]
    exact ⟨current, named⟩
  · have product := Term.integer?_binary .times
      (Term.integer?_number id factor) current
    exact ⟨product, (Term.staysNatural_number id positive).binary named
      product (Int.mul_nonneg positive (Int.natCast_nonneg _))⟩

/-- A written pattern has the value of the pattern over the integers.  If this
value is not negative, then nothing in the text is. -/
theorem integer?_expression (pattern : IndexPattern)
    (turnableSlope : pattern.slope ≠ Int64.minValue)
    (turnableOffset : pattern.offset ≠ Int64.minValue)
    (set : environment.word variableName = some iteration) :
    ((pattern.expression variableName).term id).integer? environment =
        some (pattern.slope.toInt * iteration.toNat +
          pattern.offset.toInt) ∧
      (0 ≤ pattern.slope.toInt * iteration.toNat + pattern.offset.toInt →
        ((pattern.expression variableName).term id).StaysNatural
          environment) := by
  have numbers : ∀ value : Int, ((Expression.number value).term
      id : Term).integer? environment = some value :=
    Term.integer?_number id
  rw [expression, toInt_neg turnableSlope, toInt_neg turnableOffset]
  generalize pattern.slope.toInt = slope
  generalize pattern.offset.toInt = offset
  have grows := Int.natCast_nonneg iteration.toNat
  split
  · next level =>
    rw [level, Int.zero_mul, Int.zero_add]
    exact ⟨numbers offset, Term.staysNatural_number id⟩
  split
  · next falling =>
    obtain ⟨product, natural⟩ :=
      integer?_multiple (Int.neg_nonneg_of_nonpos (Int.le_of_lt falling)) set
    have whole := Term.integer?_binary .minus (numbers offset) product
    have value : Operator.minus.onIntegers offset
        (-slope * iteration.toNat) = slope * iteration.toNat + offset := by
      rw [Operator.onIntegers, Int.neg_mul]
      omega
    rw [value] at whole
    refine ⟨whole, fun positive => ?_⟩
    -- What is subtracted is not negative, so the offset is at least the result.
    have subtracted : 0 ≤ -slope * iteration.toNat :=
      Int.mul_nonneg (by omega) grows
    rw [Int.neg_mul] at subtracted
    have above : 0 ≤ offset := by omega
    exact (Term.staysNatural_number id above).binary natural whole positive
  next rising =>
  obtain ⟨product, natural⟩ := integer?_multiple (Int.not_lt.mp rising) set
  split
  · next shifted =>
    have whole := Term.integer?_binary .plus product (numbers offset)
    refine ⟨whole, fun positive => ?_⟩
    exact natural.binary (Term.staysNatural_number id
      (Int.le_of_lt shifted)) whole positive
  split
  · next lowered =>
    have whole := Term.integer?_binary .minus product (numbers (-offset))
    have value : Operator.minus.onIntegers (slope * iteration.toNat)
        (-offset) = slope * iteration.toNat + offset := by
      rw [Operator.onIntegers, Int.sub_neg]
    rw [value] at whole
    refine ⟨whole, fun positive => ?_⟩
    exact natural.binary (Term.staysNatural_number id (by omega)) whole
      positive
  · have zero : offset = 0 := by omega
    rw [zero, Int.add_zero]
    exact ⟨product, fun _ => natural⟩

/-! ## The value over words -/

/-- The text of a pattern is read as an expression that computes the pattern
over 64-bit unsigned words.  Unless a sign cannot be turned, it computes the
pattern over the integers too, and if the pattern is not negative at an
iteration, then no literal and no other part of the expression is negative
there. -/
theorem text_computes_pattern (pattern : IndexPattern)
    (identifier : IsIdentifier variableName)
    (set : environment.word variableName = some iteration) :
    ∃ term,
      Term.read? ((pattern.expression variableName).text id) = some term ∧
      (∃ word, term.value? environment = some word ∧
        (word.toNat : Int) =
          (pattern.slope.toInt * iteration.toNat + pattern.offset.toInt) %
            2 ^ 64) ∧
      (pattern.slope ≠ Int64.minValue → pattern.offset ≠ Int64.minValue →
        term.integer? environment =
          some (pattern.slope.toInt * iteration.toNat +
            pattern.offset.toInt) ∧
        (0 ≤ pattern.slope.toInt * iteration.toNat + pattern.offset.toInt →
          term.StaysNatural environment)) := by
  have current : environment.word variableName =
      some (UInt64.ofNat iteration.toNat) := by
    rw [set, UInt64.ofNat_toNat]
  have value : ((pattern.expression variableName).term id).value?
      environment = some (pattern.word iteration.toNat) := by
    rw [Term.value?_term]
    exact value?_expression pattern current
  have readable : (pattern.expression variableName).IsReadable id :=
    pattern.expression_isReadable identifier
  refine ⟨_, Term.read?_text readable, ⟨_, value, ?_⟩,
    fun turnableSlope turnableOffset =>
      integer?_expression pattern turnableSlope turnableOffset set⟩
  rw [word_eq]
  exact Word.toNat_ofInt _

/-- A pattern with a negative offset, at an iteration from which on it is not
negative. -/
theorem lowered_text_computes :
    ((IndexPattern.mk 3 (-9)).expression "it").text id = "3 * it - 9" ∧
    IsIdentifier "it" ∧
    (Environment.binding "it" 4).word "it" = some 4 ∧
    ∃ term word, Term.read? "3 * it - 9" = some term ∧
      term.value? (.binding "it" 4) = some word ∧ word.toNat = 3 ∧
      term.StaysNatural (.binding "it" 4) := by
  have identifier : IsIdentifier "it" := by decide
  have set := Environment.word_binding "it" 4
  have spelled :
      ((IndexPattern.mk 3 (-9)).expression "it").text id = "3 * it - 9" :=
    rfl
  obtain ⟨term, read, ⟨word, value, exact⟩, overIntegers⟩ :=
    text_computes_pattern (IndexPattern.mk 3 (-9)) identifier set
  obtain ⟨_, natural⟩ := overIntegers (by decide) (by decide)
  rw [spelled] at read
  exact ⟨spelled, identifier, set, term, word, read, value,
    Int.natCast_inj.mp exact, natural (by decide)⟩

/-- The smallest word keeps its sign. -/
example :
    ((IndexPattern.mk Int64.minValue 5).expression "it").text id =
      "5 - -9223372036854775808 * it" := by
  rfl

end IndexPattern

end SparseLoop
