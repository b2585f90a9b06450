import SparseLoop.Loop.Model
import SparseLoop.Routine.Options
import SparseLoop.Sparsity.Description

/-!
# Generation requests

A request holds everything that a generation needs: the options, the usage
description, and the models of the loops that the usage refers to.  A request
without loop models does not say which loops there are, and any may be used.

The names of the record fields in a request text are collected here, in the
order of the fields.
-/

namespace SparseLoop

/-- Everything that one generation needs. -/
structure Request where
  options : Options := {}
  usage : Sparsity
  loops : List LoopModel := []
deriving DecidableEq, Repr

/-- The field names of options. -/
def Options.fieldNames : List String :=
  ["model_name", "dispatch_function", "usage_function", "local_function",
    "suffix", "base_type", "result_name", "key_index_name",
    "iteration_index_name", "in_local_size"]

/-- The field names of a usage description. -/
def Sparsity.fieldNames : List String :=
  ["elements", "loop_groups", "non_loop_elements", "user_el_location",
    "ordered", "nnz"]

/-- The field names of a loop position. -/
def LoopPosition.fieldNames : List String :=
  ["tape", "original"]

/-- The field names of a loop model. -/
def LoopModel.fieldNames : List String :=
  ["id", "iteration_count", "indexed_indep_indexes",
    "non_indexed_indep_indexes", "temporary_independents",
    "independent_patterns", "dependent_patterns"]

/-- The name of the only form of index patterns. -/
def IndexPattern.formName : String :=
  "Linear"

/-- The field names of an index pattern. -/
def IndexPattern.fieldNames : List String :=
  ["slope", "offset"]

namespace Request

/-- The field names of a request. -/
def fieldNames : List String :=
  ["options", "usage", "loops"]

/-- The first loop that the usage refers to and that has no model, unless the
request has no models at all. -/
def missingLoop? (request : Request) : Option Nat :=
  if request.loops.isEmpty then
    none
  else
    request.usage.loopGroups.keyList.find? fun loop =>
      !request.loops.any (·.id == loop)

end Request

end SparseLoop
