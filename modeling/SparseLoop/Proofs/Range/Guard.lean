import SparseLoop.Proofs.Pattern.Value
import SparseLoop.Range.Guard

/-!
# The value of a guard

The test of a range is one or zero as the variable lies in the range or not,
with or without the bounds that it leaves out.  A guard joins the tests of its
ranges, and so it is one exactly where some range contains the variable.
-/

namespace SparseLoop

namespace Word

variable {left right : Nat}

/-- The numbers that are 64-bit words compare like their words. -/
theorem ofNat_le_iff (leftSmall : left ≤ IterationRange.unbounded)
    (rightSmall : right ≤ IterationRange.unbounded) :
    UInt64.ofNat left ≤ UInt64.ofNat right ↔ left ≤ right := by
  rw [UInt64.le_iff_toNat_le,
    UInt64.toNat_ofNat_of_lt' (Nat.lt_succ_of_le leftSmall),
    UInt64.toNat_ofNat_of_lt' (Nat.lt_succ_of_le rightSmall)]

theorem ofNat_inj_iff (leftSmall : left ≤ IterationRange.unbounded)
    (rightSmall : right ≤ IterationRange.unbounded) :
    UInt64.ofNat left = UInt64.ofNat right ↔ left = right := by
  constructor
  · intro equal
    have forward := (ofNat_le_iff leftSmall rightSmall).mp
      (UInt64.le_of_eq equal)
    have backward := (ofNat_le_iff rightSmall leftSmall).mp
      (UInt64.le_of_eq equal.symm)
    exact Nat.le_antisymm forward backward
  · exact congrArg UInt64.ofNat

end Word

namespace IterationRange

variable {ν : Type} {environment : Environment ν} {variableName : ν}
  {iteration : Nat}

/-- A range whose bounds are words. -/
def Representable (range : IterationRange) : Prop :=
  range.low ≤ unbounded ∧ range.high ≤ unbounded

theorem value?_test {range : IterationRange}
    (representable : range.Representable) (isOnly : Bool)
    (small : iteration ≤ unbounded)
    (set : environment.word variableName =
      some (UInt64.ofNat iteration)) :
    (range.test variableName isOnly).value? environment =
      some (Operator.truth (range.contains iteration)) := by
  obtain ⟨lowSmall, highSmall⟩ := representable
  have number : ∀ bound : Nat,
      (Expression.number bound : Expression ν).value? environment =
        some (UInt64.ofNat bound) := by
    intro bound
    rw [Expression.value?_number, Word.ofInt_natCast]
  rw [← Expression.value?_name] at set
  have above := Expression.value?_binary .atLeast set (number range.low)
  have below := Expression.value?_binary .atMost set (number range.high)
  simp only [Operator.apply, Word.ofNat_le_iff lowSmall small] at above
  simp only [Operator.apply, Word.ofNat_le_iff small highSmall] at below
  have inside := Expression.value?_binary .both above below
  simp only [Operator.apply, Operator.truth_bne_zero] at inside
  rw [test]
  split
  · next single =>
    have same := Expression.value?_binary .equals set (number range.low)
    rw [same, Operator.apply]
    congr 2
    rw [Bool.eq_iff_iff, beq_iff_eq, Word.ofNat_inj_iff small lowSmall,
      contains, Bool.and_eq_true, decide_eq_true_eq, decide_eq_true_eq]
    omega
  split
  · next everything =>
    rw [Expression.value?_number, contains, everything.1, everything.2]
    simp [small, Operator.truth]
  split
  · next fromZero =>
    rw [below, contains, fromZero]
    simp
  split
  · next endless =>
    rw [above, contains, endless]
    simp [small]
  split
  · exact inside
  · exact inside

/-- Joining further tests to a condition joins their truth. -/
theorem value?_foldl_either {ranges : List IterationRange}
    (representable : ∀ range ∈ ranges, range.Representable)
    (small : iteration ≤ unbounded)
    (set : environment.word variableName =
      some (UInt64.ofNat iteration))
    {condition : Expression ν} {holds : Bool}
    (before : condition.value? environment =
      some (Operator.truth holds)) :
    (ranges.foldl
        (fun condition range =>
          .binary .either condition (range.test variableName false))
        condition).value? environment =
      some (Operator.truth (holds || covers ranges iteration)) := by
  induction ranges generalizing condition holds with
  | nil => simpa [covers] using before
  | cons range rest ih =>
    have tested := value?_test (representable range List.mem_cons_self)
      false small set
    have joined := Expression.value?_binary .either before tested
    simp only [Operator.apply, Operator.truth_bne_zero] at joined
    have others := fun other member =>
      representable other (List.mem_cons_of_mem range member)
    rw [List.foldl_cons, ih others joined]
    simp [covers, Bool.or_assoc]

/-- A guard over some ranges has a value, which tells whether one of them
contains the variable. -/
theorem value?_guard? {ranges : List IterationRange}
    (inhabited : ranges ≠ [])
    (representable : ∀ range ∈ ranges, range.Representable)
    (small : iteration ≤ unbounded)
    (set : environment.word variableName =
      some (UInt64.ofNat iteration)) :
    ∃ condition, guard? ranges variableName = some condition ∧
      condition.value? environment =
        some (Operator.truth (covers ranges iteration)) := by
  match ranges, inhabited with
  | [only], _ =>
    have tested := value?_test (representable only (by simp)) true small set
    refine ⟨_, rfl, ?_⟩
    rw [tested]
    simp [covers]
  | first :: second :: rest, _ =>
    have tested := value?_test (representable first (by simp)) false small
      set
    have others : ∀ range ∈ second :: rest, range.Representable :=
      fun range member => representable range (List.mem_cons_of_mem _ member)
    refine ⟨_, rfl, ?_⟩
    rw [value?_foldl_either others small set tested]
    simp [covers]

end IterationRange

end SparseLoop
