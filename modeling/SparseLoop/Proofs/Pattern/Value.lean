import Mathlib.Algebra.Group.Nat.Defs
import SparseLoop.Pattern.Basic
import SparseLoop.Proofs.Expression

/-!
# The value of a written pattern

The expression of a pattern leaves out whatever would change nothing: a zero
slope or offset, a factor of one, and a sign that an operator can carry.  Its
value is nevertheless the value of the pattern at the iteration, as a 64-bit
unsigned word.
-/

namespace SparseLoop

namespace Word

/-- Wrapping an integer as a signed word keeps its unsigned word. -/
theorem ofInt_bmod (value : Int) :
    UInt64.ofInt (value.bmod (2 ^ 64)) = UInt64.ofInt value := by
  rw [UInt64.ofInt, UInt64.ofInt]
  congr 2
  exact Int.bmod_emod

theorem ofInt_natCast (value : Nat) :
    UInt64.ofInt value = UInt64.ofNat value := by
  have wrapped : ((value : Int) % 2 ^ 64).toNat = value % 2 ^ 64 := by
    omega
  rw [UInt64.ofInt, wrapped, UInt64.ofNat_mod_size]

/-- A sign turned as a word has the unsigned word of the turned integer. -/
theorem ofInt_toInt_neg (word : Int64) :
    UInt64.ofInt (-word).toInt = UInt64.ofInt (-word.toInt) := by
  rw [Int64.toInt_neg]
  exact ofInt_bmod _

theorem ofInt_sub (left right : Int) :
    UInt64.ofInt (left - right) =
      UInt64.ofInt left - UInt64.ofInt right := by
  rw [Int.sub_eq_add_neg, UInt64.ofInt_add, UInt64.ofInt_neg,
    ← UInt64.sub_eq_add_neg]

end Word

namespace IndexPattern

variable {ν : Type} {environment : Environment ν} {variableName : ν}
  {pattern : IndexPattern} {iteration index : Nat}

/-- The value of a pattern as an unsigned word. -/
def word (pattern : IndexPattern) (iteration : Nat) : UInt64 :=
  UInt64.ofInt (pattern.evaluate iteration).toInt

theorem word_eq (pattern : IndexPattern) (iteration : Nat) :
    pattern.word iteration =
      UInt64.ofInt
        (pattern.slope.toInt * iteration + pattern.offset.toInt) := by
  have wrapped : UInt64.ofInt (Int64.ofNat iteration).toInt =
      UInt64.ofInt iteration := by
    rw [Int64.toInt_ofNat']
    exact Word.ofInt_bmod _
  rw [word, evaluate, Int64.toInt_add, Word.ofInt_bmod, UInt64.ofInt_add,
    Int64.toInt_mul, Word.ofInt_bmod, UInt64.ofInt_mul, wrapped,
    ← UInt64.ofInt_mul, ← UInt64.ofInt_add]

/-- A pattern that gives an index gives the index as an unsigned word. -/
theorem word_of_evaluate
    (value : pattern.evaluate iteration = Int64.ofNat index) :
    pattern.word iteration = UInt64.ofNat index := by
  rw [word, value, Int64.toInt_ofNat', Int64.size, ← Word.ofInt_natCast]
  exact Word.ofInt_bmod _

theorem value?_multiple (factor : Int)
    (set : environment.word variableName =
      some (UInt64.ofNat iteration)) :
    (multiple factor variableName).value? environment =
      some (UInt64.ofInt (factor * iteration)) := by
  rw [← Expression.value?_name, ← Word.ofInt_natCast] at set
  rw [multiple]
  split
  · next one => rw [set, one, Int.one_mul]
  · rw [Expression.value?_binary .times (Expression.value?_number _) set,
      Operator.apply, ← UInt64.ofInt_mul]

/-- A written pattern has the value of the pattern at the iteration. -/
theorem value?_expression (pattern : IndexPattern)
    (set : environment.word variableName =
      some (UInt64.ofNat iteration)) :
    (pattern.expression variableName).value? environment =
      some (pattern.word iteration) := by
  have scaled := value?_multiple pattern.slope.toInt set
  have turned := value?_multiple (-pattern.slope).toInt set
  rw [UInt64.ofInt_mul, Word.ofInt_toInt_neg, ← UInt64.ofInt_mul] at turned
  have lowered := Word.ofInt_toInt_neg pattern.offset
  rw [word_eq, expression]
  generalize pattern.slope.toInt = slope at scaled turned ⊢
  generalize pattern.offset.toInt = offset at lowered ⊢
  split
  · next level =>
    rw [Expression.value?_number, level, Int.zero_mul, Int.zero_add]
  split
  · rw [Expression.value?_binary .minus (Expression.value?_number _) turned,
      Operator.apply, ← Word.ofInt_sub]
    congr 2
    rw [Int.neg_mul, Int.sub_neg, Int.add_comm]
  split
  · rw [Expression.value?_binary .plus scaled (Expression.value?_number _),
      Operator.apply, ← UInt64.ofInt_add]
  split
  · rw [Expression.value?_binary .minus scaled (Expression.value?_number _),
      Operator.apply, lowered, ← Word.ofInt_sub, Int.sub_neg]
  · have zero : offset = 0 := by omega
    rw [scaled, zero, Int.add_zero]

end IndexPattern

end SparseLoop
