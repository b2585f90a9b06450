import SparseLoop.Pattern.Basic
import SparseLoop.Routine.Options

/-!
# Symbols of a usage function

The expressions of a usage function are trees over symbols: its two index
variables and its tables of keys.  How a symbol is spelled depends on the
options, and what it stands for does not.

A pattern is used at the current local iteration.  In a group of one key
nothing is repeated, and its value there is a number.
-/

namespace SparseLoop

/-- The variables and tables of a generated function that expressions use. -/
inductive Symbol where
  /-- The variable that counts local iterations. -/
  | iteration
  /-- The variable that holds the key of a call. -/
  | key
  /-- The table of the keys of a group. -/
  | keyTable (loop group : Nat)
deriving DecidableEq, Repr

/-- The spelling of a symbol under some options. -/
def Options.spell (options : Options) : Symbol → String
  | .iteration => options.iterationName
  | .key => options.keyName
  | .keyTable loop group => s!"keys_l{loop}_g{group}"

/-- The text of an expression under some options. -/
def Options.expressionText (options : Options)
    (expression : Expression Symbol) : String :=
  expression.text options.spell

/-- The value of a pattern at the current local iteration, which is zero if
nothing is repeated. -/
def IndexPattern.current (pattern : IndexPattern) (isUnrolled : Bool) :
    Expression Symbol :=
  if isUnrolled then
    .number (pattern.evaluate 0).toInt
  else
    pattern.expression .iteration

end SparseLoop
