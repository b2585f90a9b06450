/-!
# Options of a generation

The generated functions are linked into programs that choose their names, the
type of their values and the names of their variables.  The options hold these
choices, with the defaults of a model in double precision.

The function of a loop group is named by a `GroupNaming`, which may be replaced
as a whole.
-/

namespace SparseLoop

/-- The names and sizes that appear in the generated code. -/
structure Options where
  /-- The model, in the names of group functions. -/
  modelName : String := "model"
  /-- The function that provides one row. -/
  dispatchFunction : String := "model_sparse_reverse_one"
  /-- The function that provides the whole result. -/
  usageFunction : String := "model_sparse_jacobian"
  /-- The beginning of the names of row functions. -/
  localFunction : String := "model_reverse_one"
  /-- What sets apart the row and group functions of this result. -/
  suffix : String := "indep"
  /-- The type of the values. -/
  baseType : String := "double"
  /-- The variable that holds the result array. -/
  resultName : String := "jac"
  /-- The variable that holds the key of a call. -/
  keyName : String := "j"
  /-- The variable that counts local iterations. -/
  iterationName : String := "it"
  /-- The number of input arrays handed to row and group functions. -/
  inputCount : Nat := 3
deriving DecidableEq, Repr

/-- Names the function of a loop group, given the model, the loop and the
group. -/
abbrev GroupNaming :=
  String → Nat → Nat → String

namespace GroupNaming

/-- Names that carry a suffix after the model. -/
def suffixed (suffix : String) : GroupNaming :=
  fun model loop group => s!"{model}_{suffix}_loop{loop}_g{group}"

/-- Short names of the model, the loop and the group alone. -/
def short : GroupNaming :=
  fun model loop group => s!"{model}_L{loop}G{group}"

end GroupNaming

/-- The naming of group functions that the options ask for. -/
def Options.groupNaming (options : Options) : GroupNaming :=
  GroupNaming.suffixed options.suffix

end SparseLoop
