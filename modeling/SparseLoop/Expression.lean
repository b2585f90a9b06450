/-!
# Expressions of the generated code

The generated C text computes positions, keys and conditions with a few
operators over 64-bit unsigned variables.  An `Expression` is the tree of such
a computation.  It is polymorphic in the type of its names: patterns and guards
are written over any variable, whole functions over the symbols they declare.

`Expression.text` writes a tree.  A tree holds its own parentheses as
`grouped`, so that the text has exactly the parentheses of the tree.
-/

namespace SparseLoop

/-- A binary operator of C. -/
inductive Operator where
  | plus
  | minus
  | times
  | equals
  | atMost
  | atLeast
  | both
  | either
deriving DecidableEq, Repr

/-- The spelling of an operator. -/
def Operator.text : Operator → String
  | plus => "+"
  | minus => "-"
  | times => "*"
  | equals => "=="
  | atMost => "<="
  | atLeast => ">="
  | both => "&&"
  | either => "||"

/-- A C expression over variables and tables named by `ν`. -/
inductive Expression (ν : Type) where
  /-- An integer literal. -/
  | number (value : Int)
  /-- The value of a variable. -/
  | name (symbol : ν)
  /-- An entry of a constant table. -/
  | entry (table : ν) (index : Expression ν)
  /-- Two operands joined by an operator. -/
  | binary (operator : Operator) (left right : Expression ν)
  /-- An expression in parentheses. -/
  | grouped (inner : Expression ν)
deriving DecidableEq, Repr

/-- The text of an expression, given the spelling of its names. -/
def Expression.text {ν : Type} (spell : ν → String) : Expression ν → String
  | number value => toString value
  | name symbol => spell symbol
  | entry table index => s!"{spell table}[{index.text spell}]"
  | binary operator left right =>
    s!"{left.text spell} {operator.text} {right.text spell}"
  | grouped inner => s!"({inner.text spell})"

end SparseLoop
