import SparseLoop.Json.Spelling
import SparseLoop.Json.Token
import SparseLoop.Json.Value

/-!
# Reading JSON

A value is read token by token.  The reader keeps the arrays and objects that
are still open on a stack, so that nesting is limited by nothing.  A text must
hold exactly one value.
-/

namespace SparseLoop

namespace Json

/-- An array or object that is still open, with its contents in reverse. -/
inductive Frame where
  | items (before : List Json)
  /-- An object that waits for the value of a key. -/
  | member (before : List (List Char × Json)) (key : List Char)

/-- What a reader expects next. -/
inductive Reader where
  | value (stack : List Frame)
  /-- The first item of an array, or its end. -/
  | firstItem (stack : List Frame)
  /-- The end of an array, or a comma. -/
  | afterItem (items : List Json) (stack : List Frame)
  /-- The first key of an object, or its end. -/
  | firstKey (stack : List Frame)
  | nextKey (members : List (List Char × Json)) (stack : List Frame)
  | colon (members : List (List Char × Json)) (key : List Char)
    (stack : List Frame)
  /-- The end of an object, or a comma. -/
  | afterMember (members : List (List Char × Json)) (stack : List Frame)
  /-- Nothing more. -/
  | finished (value : Json)

/-- The value of a word, if it is a literal. -/
def ofWord? (letters : List Char) : Option Json :=
  if letters = "null".toList then some null
  else if letters = "true".toList then some (boolean true)
  else if letters = "false".toList then some (boolean false)
  else if Spelling.isNumber letters then some (number letters)
  else none

namespace Reader

/-- A complete value goes into the innermost open array or object. -/
def deliver (delivered : Json) : List Frame → Reader
  | [] => finished delivered
  | .items before :: stack => afterItem (delivered :: before) stack
  | .member before key :: stack => afterMember ((key, delivered) :: before) stack

/-- Reads the first token of a value. -/
def startValue (stack : List Frame) : Token → Option Reader
  | .word letters => (ofWord? letters).map (deliver · stack)
  | .string spelling => some (deliver (.string spelling) stack)
  | .openArray => some (firstItem stack)
  | .openObject => some (firstKey stack)
  | _ => none

/-- Reads one token. -/
def step (reader : Reader) (token : Token) : Option Reader :=
  match reader, token with
  | value stack, token => startValue stack token
  | firstItem stack, .closeArray => some (deliver (.array []) stack)
  | firstItem stack, token => startValue (.items [] :: stack) token
  | afterItem items stack, .comma => some (value (.items items :: stack))
  | afterItem items stack, .closeArray =>
    some (deliver (.array items.reverse) stack)
  | firstKey stack, .closeObject => some (deliver (.object []) stack)
  | firstKey stack, .string key => some (colon [] key stack)
  | nextKey members stack, .string key => some (colon members key stack)
  | colon members key stack, .colon =>
    some (value (.member members key :: stack))
  | afterMember members stack, .comma => some (nextKey members stack)
  | afterMember members stack, .closeObject =>
    some (deliver (.object members.reverse) stack)
  | _, _ => none

end Reader

/-- The value of some tokens, if they are exactly one value. -/
def ofTokens? (tokens : List Token) : Option Json := do
  match ← tokens.foldlM Reader.step (Reader.value []) with
  | .finished value => some value
  | _ => none

/-- The value of a text, if it holds exactly one. -/
def ofCharacters? (text : List Char) : Option Json := do
  ofTokens? (← Token.scan? text)

/-- The value of a string, if it holds exactly one. -/
def parse? (text : String) : Option Json :=
  ofCharacters? text.toList

end Json

end SparseLoop
