import SparseLoop.Routine.UsageText

/-!
# Dispatch functions

The dispatch function provides one row of the sparse result.  For each row that
can be asked for it calls the row function, if the row has one, and then the
function of every group that has the row as a key.  It returns zero for such a
row and one for any other.

Its file begins with the declarations of all functions that it and the usage
function call.
-/

namespace SparseLoop

/-- The calls that provide one row. -/
structure DispatchCase where
  row : Nat
  /-- Whether the row has a function of its own. -/
  hasRowFunction : Bool
  /-- The loops and groups that have the row as a key. -/
  groups : List (Nat × Nat)
deriving DecidableEq, Repr

/-- The plan of a dispatch function and of the declarations before it. -/
structure DispatchFunction where
  /-- The rows with a function of their own. -/
  rowFunctions : List Nat
  /-- All loops and groups. -/
  groupFunctions : List (Nat × Nat)
  cases : List DispatchCase
deriving DecidableEq, Repr

namespace DispatchFunction

/-- The groups that have a row as a key. -/
def groupsOf (sparsity : Sparsity) (row : Nat) : List (Nat × Nat) :=
  (sparsity.groups.filter (·.elements.contains row)).map fun group =>
    (group.loop, group.group)

/-- The plan of the dispatch function of a description. -/
def make (sparsity : Sparsity) : DispatchFunction where
  rowFunctions := sparsity.rowElements.keyList
  groupFunctions :=
    sparsity.groups.map fun group => (group.loop, group.group)
  cases := sparsity.elements.keyList.map fun row =>
    { row, hasRowFunction := sparsity.rowElements.contains row,
      groups := groupsOf sparsity row }

/-- The declarations of the row and group functions. -/
def declarationLines (options : Options) (naming : GroupNaming)
    (function : DispatchFunction) : List String :=
  let signature : Signature := { baseType := options.baseType }
  let keyed := signature.keyedParameters options.keyName
  let rows := function.rowFunctions.map fun row =>
    s!"void {options.rowFunction row}({signature.parameters});"
  let groups := function.groupFunctions.map fun (loop, group) =>
    s!"void {naming options.modelName loop group}({keyed});"
  rows ++ groups ++ [""]

/-- The lines of one case. -/
def caseLines (options : Options) (naming : GroupNaming)
    (dispatched : DispatchCase) : List String :=
  let signature : Signature := { baseType := options.baseType }
  let rowCall :=
    if dispatched.hasRowFunction then
      [indented 3
        s!"{options.rowFunction dispatched.row}({signature.arguments});"]
    else
      []
  let groupCalls := dispatched.groups.map fun (loop, group) =>
    let name := naming options.modelName loop group
    indented 3 s!"{name}({dispatched.row}, {signature.arguments});"
  [indented 2 s!"case {dispatched.row}:"] ++ rowCall ++ groupCalls ++
    [indented 3 "return 0; // done"]

/-- The text of the declarations and of the function. -/
def text (options : Options) (naming : GroupNaming)
    (function : DispatchFunction) : String :=
  let signature : Signature := { baseType := options.baseType }
  textOfLines <|
    atomicTableLines ++ [""] ++
      function.declarationLines options naming ++
      [ s!"int {options.dispatchFunction}(unsigned long pos, " ++
          s!"{signature.parameters}) \x7b",
        indented 1 "switch(pos) \x7b" ] ++
      function.cases.flatMap (caseLines options naming) ++
      [ indented 2 "default:",
        indented 3 "return 1; // error",
        indented 1 "\x7d;",
        "\x7d" ]

/-- The text of the dispatch function of a description. -/
def generate (options : Options) (sparsity : Sparsity)
    (naming : GroupNaming) : String :=
  (make sparsity).text options naming

end DispatchFunction

end SparseLoop
