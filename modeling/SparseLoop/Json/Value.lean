/-!
# JSON values

A JSON value keeps the spelling of its numbers and strings.  A number is its
literal, so that an integer can be told from the same value with a fraction or
an exponent.  A string is the text between its quotes, with its escapes, so
that a member that is never read may hold a string that denotes no text.

`Json.characters` writes a value without blanks.
-/

namespace SparseLoop

/-- A JSON value with its literals as they are spelled. -/
inductive Json where
  | null
  | boolean (value : Bool)
  /-- A number, by its literal. -/
  | number (literal : List Char)
  /-- A string, by the text between its quotes. -/
  | string (spelling : List Char)
  | array (items : List Json)
  /-- An object, by its members in order, each key by its spelling. -/
  | object (members : List (List Char × Json))

namespace Json

instance : Inhabited Json := ⟨null⟩

mutual

/-- The compact text of a value. -/
def characters : Json → List Char
  | null => "null".toList
  | boolean true => "true".toList
  | boolean false => "false".toList
  | number literal => literal
  | string spelling => '"' :: spelling ++ ['"']
  | array items => '[' :: itemCharacters items ++ [']']
  | object members => '\x7b' :: memberCharacters members ++ ['\x7d']

/-- The compact text of the items of an array. -/
def itemCharacters : List Json → List Char
  | [] => []
  | [only] => only.characters
  | first :: second :: rest =>
    first.characters ++ ',' :: itemCharacters (second :: rest)

/-- The compact text of the members of an object. -/
def memberCharacters : List (List Char × Json) → List Char
  | [] => []
  | [(key, value)] => '"' :: key ++ '"' :: ':' :: value.characters
  | (key, value) :: second :: rest =>
    '"' :: key ++ '"' :: ':' :: value.characters ++
      ',' :: memberCharacters (second :: rest)

end

/-- The compact text of a value, as a string. -/
def text (value : Json) : String :=
  String.ofList value.characters

end Json

end SparseLoop
