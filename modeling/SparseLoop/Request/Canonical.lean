import SparseLoop.Json.Spelling
import SparseLoop.Json.Value
import SparseLoop.Request.Basic

/-!
# The canonical text of a request

A request has one canonical text: compact JSON with all fields in their order,
maps and sets in ascending order, and as few escapes as possible.  Requests
that are equal have the same canonical text whatever texts they were read from,
so a hash of it identifies the request.
-/

namespace SparseLoop

namespace Json

/-- The value of a natural number. -/
def ofNatural (value : Nat) : Json :=
  number (toString value).toList

/-- The value of a signed integer. -/
def ofSigned (value : Int64) : Json :=
  number (toString value.toInt).toList

/-- The value of a text. -/
def ofText (value : String) : Json :=
  string (Spelling.encode value.toList)

/-- The value of a list. -/
def ofList {α : Type} (item : α → Json) (values : List α) : Json :=
  array (values.map item)

/-- The value of a set. -/
def ofSet (set : IndexSet) : Json :=
  ofList ofNatural set.toList

/-- The value of a map. -/
def ofMap {α : Type} (value : α → Json) (map : IndexMap α) : Json :=
  object <| map.entries.map fun (key, entry) =>
    ((toString key).toList, value entry)

/-- The value of a record with the given field names. -/
def record (names : List String) (values : List Json) : Json :=
  object <| (names.zip values).map fun (name, value) =>
    (Spelling.encode name.toList, value)

end Json

open Json

/-- The canonical value of options. -/
def Options.encode (options : Options) : Json :=
  record fieldNames
    [ ofText options.modelName, ofText options.dispatchFunction,
      ofText options.usageFunction, ofText options.localFunction,
      ofText options.suffix, ofText options.baseType,
      ofText options.resultName, ofText options.keyName,
      ofText options.iterationName, ofNatural options.inputCount ]

/-- The canonical value of a usage description. -/
def Sparsity.encode (sparsity : Sparsity) : Json :=
  record fieldNames
    [ ofMap (ofList ofNatural) sparsity.elements,
      ofMap (ofMap (ofMap ofSet)) sparsity.loopGroups,
      ofMap ofSet sparsity.rowElements,
      ofMap (ofList ofSet) sparsity.locations,
      ofMap boolean sparsity.ordered,
      ofNatural sparsity.entryCount ]

/-- The canonical value of a loop position. -/
def LoopPosition.encode (position : LoopPosition) : Json :=
  record fieldNames [ofNatural position.tape, ofNatural position.outer]

/-- The canonical value of an index pattern. -/
def IndexPattern.encode (pattern : IndexPattern) : Json :=
  record [formName]
    [record fieldNames [ofSigned pattern.slope, ofSigned pattern.offset]]

/-- The canonical value of a loop model. -/
def LoopModel.encode (model : LoopModel) : Json :=
  record fieldNames
    [ ofNatural model.id, ofNatural model.iterationCount,
      ofList (ofList LoopPosition.encode) model.indexedIndependents,
      ofList LoopPosition.encode model.nonIndexedIndependents,
      ofList LoopPosition.encode model.temporaries,
      ofList IndexPattern.encode model.independentPatterns,
      ofList IndexPattern.encode model.dependentPatterns ]

namespace Request

/-- The canonical value of a request. -/
def encode (request : Request) : Json :=
  record fieldNames
    [ request.options.encode, request.usage.encode,
      ofList LoopModel.encode request.loops ]

/-- The canonical text of a request. -/
def canonicalText (request : Request) : String :=
  request.encode.text

end Request

end SparseLoop
