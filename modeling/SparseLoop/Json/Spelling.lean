/-!
# Spelling of strings and integers

Inside a JSON string a quote, a backslash and the control characters are
spelled with escapes.  Any character may be spelled by its code in four
hexadecimal digits, and one beyond these by the two halves of its surrogate
pair.  `encode` spells a text with as few escapes as the format allows;
`decode?` reads any spelling, and refuses half of a surrogate pair.

An integer is spelled by its decimal digits.  The spelling of a natural number
has no sign, and no leading zero unless it is zero itself.
-/

namespace SparseLoop

namespace Json.Spelling

/-- The digit of a number below sixteen. -/
def hexDigit (value : Nat) : Char :=
  "0123456789abcdef".toList.getD value '0'

/-- The number that a hexadecimal digit stands for. -/
def hexValue? (digit : Char) : Option Nat :=
  if '0' ≤ digit ∧ digit ≤ '9' then
    some (digit.toNat - '0'.toNat)
  else if 'a' ≤ digit ∧ digit ≤ 'f' then
    some (digit.toNat - 'a'.toNat + 10)
  else if 'A' ≤ digit ∧ digit ≤ 'F' then
    some (digit.toNat - 'A'.toNat + 10)
  else
    none

/-- The spelling of one character. -/
def encodeCharacter (character : Char) : List Char :=
  if character = '"' then ['\\', '"']
  else if character = '\\' then ['\\', '\\']
  else if character = '\x08' then ['\\', 'b']
  else if character = '\x0c' then ['\\', 'f']
  else if character = '\n' then ['\\', 'n']
  else if character = '\r' then ['\\', 'r']
  else if character = '\t' then ['\\', 't']
  else if character.toNat < 32 then
    ['\\', 'u', '0', '0', hexDigit (character.toNat / 16),
      hexDigit (character.toNat % 16)]
  else
    [character]

/-- The spelling of a text with as few escapes as possible. -/
def encode (text : List Char) : List Char :=
  text.flatMap encodeCharacter

/-- The character of an escape of one letter. -/
def escaped? (letter : Char) : Option Char :=
  match letter with
  | '"' => some '"'
  | '\\' => some '\\'
  | '/' => some '/'
  | 'b' => some '\x08'
  | 'f' => some '\x0c'
  | 'n' => some '\n'
  | 'r' => some '\r'
  | 't' => some '\t'
  | _ => none

/-- The codes that a spelling stands for, with surrogates unpaired. -/
def codes? : List Char → Option (List Nat)
  | [] => some []
  | '\\' :: 'u' :: first :: second :: third :: fourth :: rest => do
    let a ← hexValue? first
    let b ← hexValue? second
    let c ← hexValue? third
    let d ← hexValue? fourth
    let others ← codes? rest
    pure ((((a * 16 + b) * 16 + c) * 16 + d) :: others)
  | '\\' :: letter :: rest => do
    let character ← escaped? letter
    let others ← codes? rest
    pure (character.toNat :: others)
  | character :: rest =>
    if character = '\\' then
      none
    else
      (codes? rest).map (character.toNat :: ·)

/-- Whether a code is the first half of a surrogate pair. -/
def isHighSurrogate (code : Nat) : Bool :=
  0xD800 ≤ code && code < 0xDC00

/-- Whether a code is the second half of a surrogate pair. -/
def isLowSurrogate (code : Nat) : Bool :=
  0xDC00 ≤ code && code < 0xE000

/-- The characters of some codes, with the halves of surrogate pairs joined. -/
def pair? : List Nat → Option (List Char)
  | [] => some []
  | [code] =>
    if isHighSurrogate code || isLowSurrogate code then
      none
    else
      some [Char.ofNat code]
  | code :: next :: rest =>
    if isHighSurrogate code then
      if isLowSurrogate next then
        let joined := 0x10000 + (code - 0xD800) * 0x400 + (next - 0xDC00)
        (pair? rest).map (Char.ofNat joined :: ·)
      else
        none
    else if isLowSurrogate code then
      none
    else
      (pair? (next :: rest)).map (Char.ofNat code :: ·)

/-- The text that a spelling stands for, if it stands for one. -/
def decode? (spelling : List Char) : Option (List Char) := do
  pair? (← codes? spelling)

/-- The number of some decimal digits. -/
def digitsValue (digits : List Char) : Nat :=
  digits.foldl
    (fun value digit => value * 10 + (digit.toNat - '0'.toNat)) 0

/-- The natural number of a spelling without sign or leading zero. -/
def natural? (literal : List Char) : Option Nat :=
  match literal with
  | [] => none
  | '0' :: _ :: _ => none
  | digits => if digits.all Char.isDigit then some (digitsValue digits) else none

/-- The integer of a spelling; only a number other than zero has a sign. -/
def integer? (literal : List Char) : Option Int :=
  match literal with
  | '-' :: digits =>
    match natural? digits with
    | some (magnitude + 1) => some (Int.negSucc magnitude)
    | _ => none
  | digits => (natural? digits).map Int.ofNat

/-- Whether some characters after an integer are a fraction and an exponent,
each of which may be missing. -/
def isNumberTail (tail : List Char) : Bool :=
  let afterFraction? : Option (List Char) :=
    match tail with
    | '.' :: rest =>
      if (rest.takeWhile Char.isDigit).isEmpty then
        none
      else
        some (rest.dropWhile Char.isDigit)
    | rest => some rest
  match afterFraction? with
  | none => false
  | some [] => true
  | some (mark :: rest) =>
    let digits :=
      match rest with
      | '+' :: digits => digits
      | '-' :: digits => digits
      | digits => digits
    (mark == 'e' || mark == 'E') && !digits.isEmpty && digits.all Char.isDigit

/-- Whether some characters are the literal of a JSON number. -/
def isNumber (literal : List Char) : Bool :=
  let unsigned :=
    match literal with
    | '-' :: rest => rest
    | rest => rest
  let whole := unsigned.takeWhile Char.isDigit
  (natural? whole).isSome && isNumberTail (unsigned.dropWhile Char.isDigit)

end Json.Spelling

end SparseLoop
