import SparseLoop.Failure
import SparseLoop.Json.Decoding
import SparseLoop.Json.Reader
import SparseLoop.Request.Basic

/-!
# Reading requests

A request is read from a JSON text.  Options and loops may be missing, and so
may the tables of a usage description that are empty by default.  Every number
is a word of 64 bits, except that loops are numbered by words of 32 bits and
that patterns have signed coefficients.

All ways in which a text can fail to describe a request are one failure.
-/

namespace SparseLoop

open Json

/-- Reads options; each of them may be missing. -/
def Options.decode? (value : Json) : Option Options := do
  let [modelName, dispatchFunction, usageFunction, localFunction, suffix,
      baseType, resultName, keyName, iterationName, inputCount] ←
    fields? fieldNames value | none
  let standard : Options := {}
  pure
    { modelName := ← optional? text? standard.modelName modelName
      dispatchFunction :=
        ← optional? text? standard.dispatchFunction dispatchFunction
      usageFunction := ← optional? text? standard.usageFunction usageFunction
      localFunction := ← optional? text? standard.localFunction localFunction
      suffix := ← optional? text? standard.suffix suffix
      baseType := ← optional? text? standard.baseType baseType
      resultName := ← optional? text? standard.resultName resultName
      keyName := ← optional? text? standard.keyName keyName
      iterationName := ← optional? text? standard.iterationName iterationName
      inputCount := ← optional? word? standard.inputCount inputCount }

/-- Reads a map from words of 64 bits. -/
def Json.wordMap? {α : Type} (value? : Json → Option α) :
    Json → Option (IndexMap α) :=
  map? UInt64.size value?

/-- Reads a usage description. -/
def Sparsity.decode? (value : Json) : Option Sparsity := do
  let [elements, loopGroups, rowElements, locations, ordered, entryCount] ←
    fields? fieldNames value | none
  let groups? := map? UInt32.size (wordMap? (wordMap? set?))
  pure
    { elements := ← optional? (wordMap? (list? word?)) ∅ elements
      loopGroups := ← optional? groups? ∅ loopGroups
      rowElements := ← optional? (wordMap? set?) ∅ rowElements
      locations := ← required? (wordMap? (list? set?)) locations
      ordered := ← required? (wordMap? boolean?) ordered
      entryCount := ← required? word? entryCount }

/-- Reads a loop position. -/
def LoopPosition.decode? (value : Json) : Option LoopPosition := do
  let [tape, outer] ← fields? fieldNames value | none
  pure
    { tape := ← required? word? tape
      outer := ← required? word? outer }

/-- Reads an index pattern, which is written under the name of its form. -/
def IndexPattern.decode? : Json → Option IndexPattern
  | .object [(form, value)] => do
    if (← Spelling.decode? form) != formName.toList then
      none
    let [slope, offset] ← fields? fieldNames value | none
    pure
      { slope := ← required? signed? slope
        offset := ← required? signed? offset }
  | _ => none

/-- Reads a loop model. -/
def LoopModel.decode? (value : Json) : Option LoopModel := do
  let [id, iterationCount, indexed, nonIndexed, temporaries, independent,
      dependent] ←
    fields? fieldNames value | none
  let positions? := list? LoopPosition.decode?
  let patterns? := list? IndexPattern.decode?
  pure
    { id := ← required? halfWord? id
      iterationCount := ← required? word? iterationCount
      indexedIndependents := ← required? (list? positions?) indexed
      nonIndexedIndependents := ← required? positions? nonIndexed
      temporaries := ← required? positions? temporaries
      independentPatterns := ← required? patterns? independent
      dependentPatterns := ← required? patterns? dependent }

namespace Request

/-- Reads a request from a JSON value. -/
def decode? (value : Json) : Option Request := do
  let [options, usage, loops] ← fields? fieldNames value | none
  pure
    { options := ← optional? Options.decode? {} options
      usage := ← required? Sparsity.decode? usage
      loops := ← optional? (list? LoopModel.decode?) [] loops }

/-- Reads a request from its text. -/
def ofText (text : String) : Except Failure Request :=
  match Json.parse? text >>= decode? with
  | some request => .ok request
  | none => .error .invalidRequest

end Request

end SparseLoop
