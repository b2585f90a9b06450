import SparseLoop.Expression

/-!
# The value of an expression

Generated expressions are evaluated over 64-bit unsigned words.  A variable has
a value only once it is set, and a table only at the positions that it has, so
an evaluation can get stuck.  Comparisons give one or zero, and the two logical
operators look at their right operand only if the left one does not decide.
-/

namespace SparseLoop

/-- What the names of expressions stand for at a moment of a run. -/
structure Environment (ν : Type) where
  /-- The value of a variable, once it is set. -/
  word : ν → Option UInt64
  /-- The entries of a constant table. -/
  table : ν → Option (List Nat)

namespace Operator

/-- The word of a truth value. -/
def truth (holds : Bool) : UInt64 :=
  if holds then 1 else 0

@[simp]
theorem truth_bne_zero (holds : Bool) : (truth holds != 0) = holds := by
  cases holds <;> decide

/-- The result of an operator on two words. -/
def apply (operator : Operator) (left right : UInt64) : UInt64 :=
  match operator with
  | plus => left + right
  | minus => left - right
  | times => left * right
  | equals => truth (left == right)
  | atMost => truth (decide (left ≤ right))
  | atLeast => truth (decide (right ≤ left))
  | both => truth (left != 0 && right != 0)
  | either => truth (left != 0 || right != 0)

/-- The result that the left operand decides alone. -/
def decided? (operator : Operator) (left : UInt64) : Option UInt64 :=
  match operator with
  | both => if left = 0 then some 0 else none
  | either => if left = 0 then none else some 1
  | _ => none

end Operator

/-- The value of an expression, unless it gets stuck. -/
def Expression.value? {ν : Type} (environment : Environment ν) :
    Expression ν → Option UInt64
  | number value => some (UInt64.ofInt value)
  | name symbol => environment.word symbol
  | entry table index => do
    let position ← index.value? environment
    let entries ← environment.table table
    let found ← entries[position.toNat]?
    pure (UInt64.ofNat found)
  | binary operator left right => do
    let first ← left.value? environment
    match operator.decided? first with
    | some decided => pure decided
    | none =>
      let second ← right.value? environment
      pure (operator.apply first second)
  | grouped inner => inner.value? environment

namespace Expression

variable {ν : Type} {environment : Environment ν}
  {left right : Expression ν} {first second : UInt64}

@[simp]
theorem value?_number (value : Int) :
    (number value : Expression ν).value? environment =
      some (UInt64.ofInt value) :=
  rfl

@[simp]
theorem value?_name (symbol : ν) :
    (name symbol).value? environment = environment.word symbol :=
  rfl

theorem value?_entry {table : ν} {index : Expression ν}
    {entries : List Nat} {found : Nat}
    (position : index.value? environment = some first)
    (stored : environment.table table = some entries)
    (present : entries[first.toNat]? = some found) :
    (entry table index).value? environment =
      some (UInt64.ofNat found) := by
  simp [value?, position, stored, present]

/-- Two operands with values give the operator's result. -/
theorem value?_binary (operator : Operator)
    (before : left.value? environment = some first)
    (after : right.value? environment = some second) :
    (binary operator left right).value? environment =
      some (operator.apply first second) := by
  cases operator <;>
    simp only [value?, Operator.decided?, Operator.apply, before, after,
      Option.bind_eq_bind, Option.bind_some, Option.pure_def]
  · by_cases zero : first = 0 <;> simp [zero, Operator.truth]
  · by_cases zero : first = 0 <;> simp [zero, Operator.truth]

end Expression

end SparseLoop
