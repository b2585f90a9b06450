import SparseLoop.Index.Map
import SparseLoop.Json.Spelling
import SparseLoop.Json.Value

/-!
# Decoding of JSON values

The functions here read domain values out of JSON values, and give nothing if
the value has another form.

A record is written as an object with a member per field, in any order and
among other members, or as an array of its fields in their order.  A field that
is missing is not the same as a field that is null.  A map is an object with
integers as keys, spelled without escapes; of two members with one key the
later wins.  A set is an array, in any order.
-/

namespace SparseLoop

namespace Json

/-- A natural number below a bound. -/
def natural? (bound : Nat) : Json → Option Nat
  | number literal => do
    let value ← Spelling.natural? literal
    if value < bound then some value else none
  | _ => none

/-- A word of 64 bits. -/
def word? : Json → Option Nat :=
  natural? UInt64.size

/-- A word of 32 bits. -/
def halfWord? : Json → Option Nat :=
  natural? UInt32.size

/-- A signed integer of 64 bits. -/
def signed? : Json → Option Int64
  | number literal => do
    let value ← Spelling.integer? literal
    if Int64.minValue.toInt ≤ value ∧ value ≤ Int64.maxValue.toInt then
      some (Int64.ofInt value)
    else
      none
  | _ => none

/-- A truth value. -/
def boolean? : Json → Option Bool
  | boolean value => some value
  | _ => none

/-- A text. -/
def text? : Json → Option String
  | string spelling => (Spelling.decode? spelling).map String.ofList
  | _ => none

/-- A list. -/
def list? {α : Type} (item? : Json → Option α) : Json → Option (List α)
  | array items => items.mapM item?
  | _ => none

/-- A set of words. -/
def set? (value : Json) : Option IndexSet :=
  (list? word? value).map IndexSet.ofList

/-- A map from naturals below a bound. -/
def map? {α : Type} (bound : Nat) (value? : Json → Option α) :
    Json → Option (IndexMap α)
  | object members => do
    let entries ← members.mapM fun (key, value) => do
      let index ← natural? bound (number key)
      pure (index, ← value? value)
    pure (IndexMap.ofList entries)
  | _ => none

/-- The value of a field among decoded members, which must not hold it twice. -/
def member? (members : List (List Char × Json)) (name : String) :
    Option (Option Json) :=
  match members.filter (·.1 == name.toList) with
  | [] => some none
  | [(_, value)] => some (some value)
  | _ => none

/-- The fields of a record, in the order of their names. -/
def fields? (names : List String) : Json → Option (List (Option Json))
  | object members => do
    let decoded ← members.mapM fun (key, value) => do
      pure (← Spelling.decode? key, value)
    names.mapM (member? decoded)
  | array items =>
    if items.length ≤ names.length then
      some ((List.range names.length).map (items[·]?))
    else
      none
  | _ => none

/-- The value of a field that must be there. -/
def required? {α : Type} (value? : Json → Option α) :
    Option Json → Option α
  | some value => value? value
  | none => none

/-- The value of a field, or another one if the field is missing. -/
def optional? {α : Type} (value? : Json → Option α) (missing : α) :
    Option Json → Option α
  | some value => value? value
  | none => some missing

end Json

end SparseLoop
