import SparseLoop.Json.Spelling
import SparseLoop.Proofs.Expression

/-!
# Reading expressions

The text of a generated expression is handed to a C compiler, which sees a tree
in it.  A `Term` is such a tree: it has literals without a sign and a negation,
and its parentheses are gone.

`Term.read?` finds the tree of a text.  The text falls into longest runs of
characters that stand together, and each run other than a blank is a lexeme.
The lexemes are read from left to right.  A frame is kept for whatever waits for
the operand being read, and a binary operator completes the frames that bind no
less tightly than itself, so operators of one rank group to the left.

The reader knows the part of C that generated expressions are written in.  It
declines any other text, and it declines rather than taking a run of operator
characters apart.
-/

namespace SparseLoop

namespace Operator

/-- How tightly an operator binds; `*` binds tightest. -/
def rank : Operator → Nat
  | either => 1
  | both => 2
  | equals => 3
  | atMost | atLeast => 4
  | plus | minus => 5
  | times => 6

/-- How tightly a sign binds, which is more than any binary operator. -/
def signRank : Nat :=
  7

/-- The rank of what needs no parentheses anywhere. -/
def atomRank : Nat :=
  8

theorem rank_lt_signRank (operator : Operator) : operator.rank < signRank := by
  cases operator <;> decide

theorem rank_lt_atomRank (operator : Operator) : operator.rank < atomRank :=
  Nat.lt_succ_of_lt operator.rank_lt_signRank

/-- The result of an operator on two integers. -/
def onIntegers (operator : Operator) (left right : Int) : Int :=
  match operator with
  | plus => left + right
  | minus => left - right
  | times => left * right
  | equals => if left = right then 1 else 0
  | atMost => if left ≤ right then 1 else 0
  | atLeast => if right ≤ left then 1 else 0
  | both => if left ≠ 0 ∧ right ≠ 0 then 1 else 0
  | either => if left ≠ 0 ∨ right ≠ 0 then 1 else 0

/-- The operator with a spelling. -/
def ofText? (text : String) : Option Operator :=
  [plus, minus, times, equals, atMost, atLeast, both, either].find?
    (·.text == text)

end Operator

/-- The environment in which one variable is set and nothing else is known. -/
def Environment.binding (letters : String) (word : UInt64) :
    Environment String where
  word other := if other = letters then some word else none
  table _ := none

@[simp]
theorem Environment.word_binding (letters : String) (word : UInt64) :
    (binding letters word).word letters = some word :=
  if_pos rfl

/-- An expression as its text is understood. -/
inductive Term where
  | literal (value : Nat)
  | name (letters : String)
  /-- An entry of a constant table. -/
  | entry (table : String) (index : Term)
  | negative (inner : Term)
  | binary (operator : Operator) (left right : Term)
deriving DecidableEq, Repr

namespace Term

/-! ## Values -/

/-- The value over 64-bit unsigned words, unless the evaluation gets stuck. -/
def value? (environment : Environment String) : Term → Option UInt64
  | literal value => some (UInt64.ofNat value)
  | name letters => environment.word letters
  | entry table index => do
    let position ← index.value? environment
    let entries ← environment.table table
    let found ← entries[position.toNat]?
    pure (UInt64.ofNat found)
  | negative inner => do
    let value ← inner.value? environment
    pure (-value)
  | binary operator left right => do
    let first ← left.value? environment
    match operator.decided? first with
    | some decided => pure decided
    | none =>
      let second ← right.value? environment
      pure (operator.apply first second)

/-- The value over the integers, where nothing wraps around. -/
def integer? (environment : Environment String) : Term → Option Int
  | literal value => some value
  | name letters => (environment.word letters).map fun word => word.toNat
  | entry table index => do
    let position ← index.integer? environment
    let entries ← environment.table table
    let found ← if position < 0 then none else entries[position.toNat]?
    pure found
  | negative inner => do
    let value ← inner.integer? environment
    pure (-value)
  | binary operator left right => do
    let first ← left.integer? environment
    let second ← right.integer? environment
    pure (operator.onIntegers first second)

/-- A term with all terms inside it, down to its literals and names. -/
def parts : Term → List Term
  | literal value => [literal value]
  | name letters => [name letters]
  | entry table index => entry table index :: index.parts
  | negative inner => negative inner :: inner.parts
  | binary operator left right =>
    binary operator left right :: (left.parts ++ right.parts)

end Term

/-! ## Lexemes -/

/-- A word or sign in the text of an expression. -/
inductive Lexeme where
  | number (value : Nat)
  | name (letters : String)
  | operator (operator : Operator)
  | openGroup
  | closeGroup
  | openEntry
  | closeEntry
deriving DecidableEq, Repr

namespace Lexeme

/-- Whether a character may stand in a number or a name. -/
def isWordCharacter (character : Char) : Bool :=
  character.isAlphanum || character == '_' || 128 ≤ character.toNat

/-- Whether operators are spelled with a character. -/
def isOperatorCharacter (character : Char) : Bool :=
  "+-*=<>&|".toList.contains character

/-- Whether two characters in succession stand together. -/
def joins (first second : Char) : Bool :=
  isWordCharacter first && isWordCharacter second ||
    isOperatorCharacter first && isOperatorCharacter second

/-- Whether some characters are the name of a variable. -/
def isName : List Char → Bool
  | [] => false
  | first :: rest =>
    isWordCharacter first && !first.isDigit && rest.all isWordCharacter

/-- The lexeme of a run of characters that stand together. -/
def ofRun? (run : List Char) : Option Lexeme :=
  match run with
  | ['('] => some openGroup
  | [')'] => some closeGroup
  | ['['] => some openEntry
  | [']'] => some closeEntry
  | _ =>
    if isName run then
      some (name (String.ofList run))
    else
      match Operator.ofText? (String.ofList run) with
      | some found => some (operator found)
      | none => (Json.Spelling.natural? run).map number

/-- The lexemes of some runs, of which the blanks are dropped. -/
def ofRuns? : List (List Char) → Option (List Lexeme)
  | [] => some []
  | run :: rest =>
    if run = [' '] then
      ofRuns? rest
    else do
      let first ← ofRun? run
      let others ← ofRuns? rest
      pure (first :: others)

/-- The lexemes of a text. -/
def scan? (text : List Char) : Option (List Lexeme) :=
  ofRuns? (text.splitBy joins)

end Lexeme

/-- The names that a variable may have. -/
def IsIdentifier (letters : String) : Prop :=
  Lexeme.isName letters.toList = true

instance (letters : String) : Decidable (IsIdentifier letters) :=
  inferInstanceAs (Decidable (_ = true))

/-! ## Frames -/

namespace Term

/-- What waits for the operand that is being read. -/
inductive Frame where
  /-- A binary operator with its left operand. -/
  | operand (left : Term) (operator : Operator)
  | sign
  /-- An open parenthesis. -/
  | group
  /-- An open bracket behind the name of a table. -/
  | entry (table : String)
deriving DecidableEq, Repr

/-- What an operand makes of a frame that binds at least as tightly as some
rank. -/
def Frame.complete? (rank : Nat) (term : Term) : Frame → Option Term
  | operand left operator =>
    if rank ≤ operator.rank then some (.binary operator left term) else none
  | sign => some (.negative term)
  | group | entry _ => none

/-- Completes the innermost frames that bind at least as tightly as some
rank. -/
def settle (rank : Nat) : List Frame → Term → List Frame × Term
  | [], term => ([], term)
  | frame :: outer, term =>
    match frame.complete? rank term with
    | some whole => settle rank outer whole
    | none => (frame :: outer, term)

/-- A reader of lexemes, with the innermost frame first. -/
structure Reader where
  frames : List Frame := []
  /-- The last operand, if it is not still to come. -/
  operand? : Option Term := none
deriving DecidableEq, Repr

namespace Reader

/-- Reads one lexeme. -/
def step (reader : Reader) (lexeme : Lexeme) : Option Reader :=
  let ⟨frames, operand?⟩ := reader
  match operand?, lexeme with
  | none, .number value => some ⟨frames, some (.literal value)⟩
  | none, .name letters => some ⟨frames, some (.name letters)⟩
  | none, .operator .minus => some ⟨.sign :: frames, none⟩
  | none, .openGroup => some ⟨.group :: frames, none⟩
  | some term, .operator operator =>
    let (outer, left) := settle operator.rank frames term
    some ⟨.operand left operator :: outer, none⟩
  | some (.name table), .openEntry => some ⟨.entry table :: frames, none⟩
  | some term, .closeGroup =>
    match settle 0 frames term with
    | (.group :: outer, inner) => some ⟨outer, some inner⟩
    | _ => none
  | some term, .closeEntry =>
    match settle 0 frames term with
    | (.entry table :: outer, index) => some ⟨outer, some (.entry table index)⟩
    | _ => none
  | _, _ => none

/-- The term that was read, if nothing waits for an operand. -/
def finish (reader : Reader) : Option Term :=
  match reader.operand? with
  | none => none
  | some term =>
    match settle 0 reader.frames term with
    | ([], whole) => some whole
    | _ => none

end Reader

/-- The term of some lexemes. -/
def ofLexemes? (lexemes : List Lexeme) : Option Term := do
  (← lexemes.foldlM Reader.step {}).finish

/-- The term that a text is read as. -/
def read? (text : String) : Option Term := do
  ofLexemes? (← Lexeme.scan? text.toList)

end Term

end SparseLoop
