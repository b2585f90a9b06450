/-!
# Tokens of a JSON text

A JSON text falls into punctuation, strings and words.  A word is a longest run
of letters, digits and the signs that numbers are made of; what it means is
decided later.  Blanks separate tokens and are dropped.

Strings keep their spelling.  Their escapes are checked here only for their
form, since a string that nobody reads need not denote a text.
-/

namespace SparseLoop

namespace Json

/-- A token of a JSON text. -/
inductive Token where
  | openArray
  | closeArray
  | openObject
  | closeObject
  | colon
  | comma
  /-- A string, by the text between its quotes. -/
  | string (spelling : List Char)
  /-- A literal name or number. -/
  | word (letters : List Char)
deriving DecidableEq, Repr

namespace Token

/-- What a scanner is in the middle of, with the characters read so far in
reverse. -/
inductive Mode where
  | between
  | word (letters : List Char)
  | string (spelling : List Char)
  /-- After the backslash of an escape. -/
  | escape (spelling : List Char)
  /-- Inside an escape with some hexadecimal digits to come. -/
  | code (remaining : Nat) (spelling : List Char)
deriving DecidableEq, Repr

/-- A scanner, with the tokens found so far in reverse. -/
structure Scanner where
  mode : Mode := .between
  tokens : List Token := []
deriving DecidableEq, Repr

/-- Whether a character separates tokens. -/
def isBlank (character : Char) : Bool :=
  character == ' ' || character == '\t' || character == '\n' ||
    character == '\r'

/-- Whether a character may stand in a word. -/
def isWordCharacter (character : Char) : Bool :=
  character.isAlphanum || character == '+' || character == '-' ||
    character == '.'

/-- Whether a character is a hexadecimal digit. -/
def isHexDigit (character : Char) : Bool :=
  character.isDigit || ('a' ≤ character && character ≤ 'f') ||
    ('A' ≤ character && character ≤ 'F')

/-- The token of a punctuation character. -/
def punctuation? (character : Char) : Option Token :=
  match character with
  | '[' => some openArray
  | ']' => some closeArray
  | '\x7b' => some openObject
  | '\x7d' => some closeObject
  | ':' => some colon
  | ',' => some comma
  | _ => none

namespace Scanner

/-- Reads a character between two tokens. -/
def start (scanner : Scanner) (character : Char) : Option Scanner :=
  if isBlank character then
    some { scanner with mode := .between }
  else if character = '"' then
    some { scanner with mode := .string [] }
  else if isWordCharacter character then
    some { scanner with mode := .word [character] }
  else
    (punctuation? character).map fun token =>
      { mode := .between, tokens := token :: scanner.tokens }

/-- Reads one character. -/
def step (scanner : Scanner) (character : Char) : Option Scanner :=
  match scanner.mode with
  | .between => scanner.start character
  | .word letters =>
    if isWordCharacter character then
      some { scanner with mode := .word (character :: letters) }
    else
      start { scanner with tokens := .word letters.reverse :: scanner.tokens }
        character
  | .string spelling =>
    if character = '"' then
      some
        { mode := .between,
          tokens := .string spelling.reverse :: scanner.tokens }
    else if character = '\\' then
      some { scanner with mode := .escape (character :: spelling) }
    else if character.toNat < 32 then
      none
    else
      some { scanner with mode := .string (character :: spelling) }
  | .escape spelling =>
    if character = 'u' then
      some { scanner with mode := .code 4 (character :: spelling) }
    else if "\"\\/bfnrt".toList.contains character then
      some { scanner with mode := .string (character :: spelling) }
    else
      none
  | .code remaining spelling =>
    if isHexDigit character then
      if remaining ≤ 1 then
        some { scanner with mode := .string (character :: spelling) }
      else
        some { scanner with mode := .code (remaining - 1) (character :: spelling) }
    else
      none

/-- The tokens found up to the end of the text. -/
def finish (scanner : Scanner) : Option (List Token) :=
  match scanner.mode with
  | .between => some scanner.tokens.reverse
  | .word letters => some (.word letters.reverse :: scanner.tokens).reverse
  | _ => none

end Scanner

/-- The tokens of a text. -/
def scan? (text : List Char) : Option (List Token) := do
  (← text.foldlM Scanner.step {}).finish

end Token

end Json

end SparseLoop
