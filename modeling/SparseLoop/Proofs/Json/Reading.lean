import SparseLoop.Json.Reader
import SparseLoop.Proofs.Json.Spelling

/-!
# What is written can be read

The compact text of a value is read as this value.  Reading has two stages, and
so has the proof.  The scanner turns the characters of a value into its tokens,
`scan_characters`.  The last token may be a word that has not ended yet; the
next character ends it, since a value is followed by punctuation or by nothing.
The reader turns the tokens of a value into the value and delivers it to what
stands around it, `read_tokens`.

Both are inductions on the value, for any tokens scanned before and any stack of
open arrays and objects.
-/

namespace SparseLoop

namespace Json

open Token (Scanner Mode)

/-- A value whose literals are spelled as texts and integers are spelled. -/
inductive IsWritten : Json → Prop
  | null : IsWritten null
  | boolean (value : Bool) : IsWritten (boolean value)
  | number (value : Int) : IsWritten (number (toString value).toList)
  | string (text : List Char) : IsWritten (string (Spelling.encode text))
  | array {items : List Json} (written : ∀ item ∈ items, IsWritten item) :
      IsWritten (array items)
  | object {members : List (List Char × Json)}
      (keys : ∀ member ∈ members,
        ∃ text, member.1 = Spelling.encode text)
      (written : ∀ member ∈ members, IsWritten member.2) :
      IsWritten (object members)

mutual

/-- The tokens of a value. -/
def tokens : Json → List Token
  | null => [.word "null".toList]
  | boolean true => [.word "true".toList]
  | boolean false => [.word "false".toList]
  | number literal => [.word literal]
  | string spelling => [.string spelling]
  | array items => .openArray :: itemTokens items ++ [.closeArray]
  | object members => .openObject :: memberTokens members ++ [.closeObject]

/-- The tokens of the items of an array. -/
def itemTokens : List Json → List Token
  | [] => []
  | [only] => only.tokens
  | first :: second :: rest =>
    first.tokens ++ .comma :: itemTokens (second :: rest)

/-- The tokens of the members of an object. -/
def memberTokens : List (List Char × Json) → List Token
  | [] => []
  | [(key, value)] => .string key :: .colon :: value.tokens
  | (key, value) :: second :: rest =>
    .string key :: .colon :: value.tokens ++
      .comma :: memberTokens (second :: rest)

end

/-! ## Scanning -/

section Scanning

variable {before tokens : List Token} {scanner : Scanner}
  {character : Char} {token : Token} {letters : List Char}

/-- A scanner that has found some tokens, the last of which may be a word that
the next character ends. -/
def Settles (scanner : Scanner) (tokens : List Token) : Prop :=
  scanner = ⟨.between, tokens⟩ ∨
    ∃ letters rest, scanner = ⟨.word letters, rest⟩ ∧
      tokens = .word letters.reverse :: rest

/-- Some characters are scanned as some tokens, whatever was scanned before. -/
def Scans (characters : List Char) (tokens : List Token) : Prop :=
  ∀ before : List Token, ∃ scanner : Scanner,
    characters.foldlM Scanner.step ⟨.between, before⟩ = some scanner ∧
      Settles scanner (tokens.reverse ++ before)

/-- Punctuation is no part of anything else. -/
theorem punctuation_plain
    (found : Token.punctuation? character = some token) :
    Token.isBlank character = false ∧ character ≠ '"' ∧
      Token.isWordCharacter character = false := by
  unfold Token.punctuation? at found
  split at found <;> cases found <;> decide

theorem start_punctuation
    (found : Token.punctuation? character = some token) :
    scanner.start character = some ⟨.between, token :: scanner.tokens⟩ := by
  simp [Scanner.start, punctuation_plain found, found]

/-- Punctuation ends what was scanned before it. -/
theorem Settles.step_punctuation (settles : Settles scanner tokens)
    (found : Token.punctuation? character = some token) :
    scanner.step character = some ⟨.between, token :: tokens⟩ := by
  rcases settles with rfl | ⟨letters, rest, rfl, rfl⟩
  · exact start_punctuation found
  · rw [Scanner.step]
    simp only [punctuation_plain found, Bool.false_eq_true, if_false]
    exact start_punctuation found

theorem Settles.finish (settles : Settles scanner tokens) :
    scanner.finish = some tokens.reverse := by
  rcases settles with rfl | ⟨letters, rest, rfl, rfl⟩ <;> rfl

theorem scans_nil : Scans [] [] :=
  fun _ => ⟨_, rfl, .inl rfl⟩

/-- Punctuation ends what comes before it, and what comes after it is scanned
alone. -/
theorem Scans.append {characters others : List Char} {more : List Token}
    (scans : Scans characters tokens)
    (found : Token.punctuation? character = some token)
    (follows : Scans others more) :
    Scans (characters ++ character :: others) (tokens ++ token :: more) := by
  intro before
  obtain ⟨scanner, scanned, settles⟩ := scans before
  obtain ⟨last, rest, ends⟩ := follows (token :: (tokens.reverse ++ before))
  refine ⟨last, ?_, by simpa using ends⟩
  simp [List.foldlM_append, scanned, settles.step_punctuation found, rest]

/-! ### Words -/

theorem isDigit_isWordCharacter (digit : character.isDigit = true) :
    Token.isWordCharacter character = true := by
  simp [Token.isWordCharacter, Char.isAlphanum, digit]

theorem start_word (inWord : Token.isWordCharacter character = true) :
    scanner.start character = some { scanner with mode := .word [character] } := by
  have blank : Token.isBlank character = false := by
    rw [← Bool.not_eq_true]
    intro blank
    simp only [Token.isBlank, Bool.or_eq_true, beq_iff_eq] at blank
    rcases blank with ((rfl | rfl) | rfl) | rfl <;> cases inWord
  have quote : character ≠ '"' := by
    rintro rfl
    cases inWord
  simp [Scanner.start, blank, quote, inWord]

theorem foldlM_word (inWord : ∀ character ∈ letters,
      Token.isWordCharacter character = true) (read : List Char) :
    letters.foldlM Scanner.step ⟨.word read, before⟩ =
      some ⟨.word (letters.reverse ++ read), before⟩ := by
  induction letters generalizing read with
  | nil => rfl
  | cons letter rest ih =>
    obtain ⟨first, others⟩ := List.forall_mem_cons.mp inWord
    simp [Scanner.step, first, ih others]

theorem scans_word (inhabited : letters ≠ [])
    (inWord : ∀ character ∈ letters,
      Token.isWordCharacter character = true) :
    Scans letters [.word letters] := by
  intro before
  cases letters with
  | nil => exact absurd rfl inhabited
  | cons letter rest =>
    obtain ⟨first, others⟩ := List.forall_mem_cons.mp inWord
    refine ⟨⟨.word (rest.reverse ++ [letter]), before⟩, ?_,
      .inr ⟨_, _, rfl, by simp⟩⟩
    rw [List.foldlM_cons]
    simp [Scanner.step, start_word first, foldlM_word others]

theorem scans_integer (value : Int) :
    Scans (toString value).toList [.word (toString value).toList] := by
  have digits : ∀ character ∈ Spelling.digits value.natAbs,
      Token.isWordCharacter character = true := fun _ member =>
    isDigit_isWordCharacter (Spelling.isDigit_of_mem_digits member)
  rw [Spelling.toList_toString_int]
  split
  · refine scans_word (List.cons_ne_nil _ _) ?_
    exact List.forall_mem_cons.mpr ⟨by decide, digits⟩
  · exact scans_word (Spelling.digits_ne_nil _) digits

/-! ### Strings -/

theorem isHexDigit_hexDigit {value : Nat} (small : value < 16) :
    Token.isHexDigit (Spelling.hexDigit value) = true := by
  have all : ∀ value < 16,
      Token.isHexDigit (Spelling.hexDigit value) = true := by decide
  exact all value small

/-- The spelling of a character stays inside its string. -/
theorem foldlM_encodeCharacter (character : Char) (read : List Char) :
    (Spelling.encodeCharacter character).foldlM Scanner.step
        ⟨.string read, before⟩ =
      some ⟨.string ((Spelling.encodeCharacter character).reverse ++ read),
        before⟩ := by
  unfold Spelling.encodeCharacter
  split_ifs with quote backslash backspace feed newline turn tab control
  · rfl
  · rfl
  · rfl
  · rfl
  · rfl
  · rfl
  · rfl
  · have high := isHexDigit_hexDigit
      (show character.toNat / 16 < 16 by omega)
    have low := isHexDigit_hexDigit
      (show character.toNat % 16 < 16 by omega)
    have zero : Token.isHexDigit '0' = true := by decide
    simp [Scanner.step, high, low, zero]
  · simp [Scanner.step, quote, backslash, Nat.not_lt.mp control]

theorem foldlM_encode (text read : List Char) :
    (Spelling.encode text).foldlM Scanner.step ⟨.string read, before⟩ =
      some ⟨.string ((Spelling.encode text).reverse ++ read), before⟩ := by
  induction text generalizing read with
  | nil => rfl
  | cons character rest ih =>
    rw [Spelling.encode, List.flatMap_cons, List.foldlM_append,
      foldlM_encodeCharacter]
    rw [Spelling.encode] at ih
    simp [ih]

theorem scans_string (text : List Char) :
    Scans ('"' :: Spelling.encode text ++ ['"'])
      [.string (Spelling.encode text)] := by
  intro before
  have opened : Scanner.step ⟨.between, before⟩ '"' =
      some ⟨.string [], before⟩ := rfl
  have closed : Scanner.step
      ⟨.string ((Spelling.encode text).reverse ++ []), before⟩ '"' =
        some ⟨.between, .string (Spelling.encode text) :: before⟩ := by
    simp [Scanner.step]
  refine ⟨⟨.between, .string (Spelling.encode text) :: before⟩, ?_,
    .inl (by simp)⟩
  simp only [List.cons_append, List.foldlM_cons, opened,
    Option.bind_eq_bind, Option.bind_some, List.foldlM_append,
    foldlM_encode, closed]
  rfl

/-! ### Values -/

theorem scans_items {items : List Json}
    (scans : ∀ item ∈ items, Scans item.characters item.tokens) :
    Scans (itemCharacters items) (itemTokens items) := by
  induction items with
  | nil => exact scans_nil
  | cons first rest ih =>
    obtain ⟨one, others⟩ := List.forall_mem_cons.mp scans
    cases rest with
    | nil => exact one
    | cons second rest => exact one.append rfl (ih others)

theorem scans_member {key : List Char} {value : Json}
    (spelled : ∃ text, key = Spelling.encode text)
    (scans : Scans value.characters value.tokens) :
    Scans ('"' :: key ++ '"' :: ':' :: value.characters)
      (.string key :: .colon :: value.tokens) := by
  obtain ⟨text, rfl⟩ := spelled
  have colon : Token.punctuation? ':' = some .colon := rfl
  have keyed := (scans_string text).append colon scans
  rw [List.append_assoc] at keyed
  exact keyed

theorem scans_members {members : List (List Char × Json)}
    (keys : ∀ member ∈ members, ∃ text, member.1 = Spelling.encode text)
    (scans : ∀ member ∈ members,
      Scans member.2.characters member.2.tokens) :
    Scans (memberCharacters members) (memberTokens members) := by
  induction members with
  | nil => exact scans_nil
  | cons first rest ih =>
    obtain ⟨key, value⟩ := first
    obtain ⟨spelled, otherKeys⟩ := List.forall_mem_cons.mp keys
    obtain ⟨one, others⟩ := List.forall_mem_cons.mp scans
    have member := scans_member spelled one
    cases rest with
    | nil => exact member
    | cons second rest => exact member.append rfl (ih otherKeys others)

/-- The characters of a written value are scanned as its tokens. -/
theorem scan_characters {value : Json} (written : IsWritten value) :
    Scans value.characters value.tokens := by
  induction written with
  | null => exact scans_word (by decide) (List.all_eq_true.mp rfl)
  | boolean value =>
    cases value <;>
      exact scans_word (by decide) (List.all_eq_true.mp rfl)
  | number value => exact scans_integer value
  | string text => exact scans_string text
  | array _ ih =>
    exact scans_nil.append rfl ((scans_items ih).append rfl scans_nil)
  | object keys _ ih =>
    exact scans_nil.append rfl
      ((scans_members keys ih).append rfl scans_nil)

end Scanning

/-! ## Reading -/

section Reading

variable {value : Json} {items : List Json}
  {members : List (List Char × Json)}

/-- The tokens of a value are read as the value, whatever is still open. -/
def Reads (value : Json) : Prop :=
  ∀ stack : List Frame,
    value.tokens.foldlM Reader.step (.value stack) =
      some (Reader.deliver value stack)

theorem ofWord?_integer (value : Int) :
    ofWord? (toString value).toList =
      some (number (toString value).toList) := by
  have spelled := Spelling.isNumber_toString_int value
  have apart : ∀ letters, Spelling.isNumber letters = false →
      (toString value).toList ≠ letters := by
    rintro letters missing rfl
    rw [spelled] at missing
    cases missing
  rw [ofWord?, if_neg (apart _ (by decide)), if_neg (apart _ (by decide)),
    if_neg (apart _ (by decide)), if_pos spelled]

theorem reads_integer (value : Int) :
    Reads (number (toString value).toList) := by
  intro stack
  rw [tokens, List.foldlM_cons]
  show (Reader.startValue stack (.word (toString value).toList)).bind _ = _
  rw [Reader.startValue, ofWord?_integer]
  rfl

/-- The first item of an array is read like any other. -/
theorem read_firstItem (value : Json) (rest : List Token)
    (stack : List Frame) :
    (value.tokens ++ rest).foldlM Reader.step (.firstItem stack) =
      (value.tokens ++ rest).foldlM Reader.step
        (.value (.items [] :: stack)) := by
  cases value with
  | boolean value => cases value <;> rfl
  | _ => rfl

theorem read_items (reads : ∀ item ∈ items, Reads item)
    (inhabited : items ≠ []) (before : List Json) (stack : List Frame) :
    (itemTokens items ++ [Token.closeArray]).foldlM Reader.step
        (.value (.items before :: stack)) =
      some (Reader.deliver (.array (before.reverse ++ items)) stack) := by
  induction items generalizing before with
  | nil => exact absurd rfl inhabited
  | cons first rest ih =>
    obtain ⟨one, others⟩ := List.forall_mem_cons.mp reads
    cases rest with
    | nil =>
      rw [itemTokens, List.foldlM_append, one, ← List.reverse_cons]
      rfl
    | cons second rest =>
      have remaining := ih others (List.cons_ne_nil _ _) (first :: before)
      rw [itemTokens, List.append_assoc, List.foldlM_append, one,
        List.append_cons before.reverse, ← List.reverse_cons]
      exact remaining

theorem reads_array (reads : ∀ item ∈ items, Reads item) :
    Reads (array items) := by
  intro stack
  rw [tokens, List.cons_append, List.foldlM_cons]
  show (itemTokens items ++ [Token.closeArray]).foldlM Reader.step
    (.firstItem stack) = _
  cases items with
  | nil => rfl
  | cons first rest =>
    have read := read_items reads (List.cons_ne_nil _ _) [] stack
    cases rest with
    | nil =>
      rw [itemTokens] at read ⊢
      rw [read_firstItem]
      exact read
    | cons second rest =>
      rw [itemTokens, List.append_assoc] at read ⊢
      rw [read_firstItem]
      exact read

/-- A member of an object is read after its key. -/
theorem read_member (reads : Reads value) (key : List Char)
    (before : List (List Char × Json)) (stack : List Frame)
    (rest : List Token) :
    (Token.string key :: .colon :: (value.tokens ++ rest)).foldlM
        Reader.step (.nextKey before stack) =
      rest.foldlM Reader.step
        (.afterMember ((key, value) :: before) stack) := by
  show (value.tokens ++ rest).foldlM Reader.step
    (.value (.member before key :: stack)) = _
  rw [List.foldlM_append, reads]
  rfl

theorem read_members (reads : ∀ member ∈ members, Reads member.2)
    (inhabited : members ≠ []) (before : List (List Char × Json))
    (stack : List Frame) :
    (memberTokens members ++ [Token.closeObject]).foldlM Reader.step
        (.nextKey before stack) =
      some (Reader.deliver (.object (before.reverse ++ members)) stack) := by
  induction members generalizing before with
  | nil => exact absurd rfl inhabited
  | cons first rest ih =>
    obtain ⟨key, value⟩ := first
    obtain ⟨one, others⟩ := List.forall_mem_cons.mp reads
    cases rest with
    | nil =>
      rw [memberTokens, List.cons_append, List.cons_append,
        read_member one, ← List.reverse_cons]
      rfl
    | cons second rest =>
      have remaining := ih others (List.cons_ne_nil _ _)
        ((key, value) :: before)
      rw [memberTokens, List.append_assoc, List.cons_append,
        List.cons_append, read_member one,
        List.append_cons before.reverse, ← List.reverse_cons]
      exact remaining

theorem reads_object (reads : ∀ member ∈ members, Reads member.2) :
    Reads (object members) := by
  intro stack
  rw [tokens, List.cons_append, List.foldlM_cons]
  show (memberTokens members ++ [Token.closeObject]).foldlM Reader.step
    (.firstKey stack) = _
  cases members with
  | nil => rfl
  | cons first rest =>
    have read := read_members reads (List.cons_ne_nil _ _) [] stack
    cases rest <;> exact read

/-- The tokens of a written value are read as this value. -/
theorem read_tokens (written : IsWritten value) : Reads value := by
  induction written with
  | null => exact fun _ => rfl
  | boolean value => cases value <;> exact fun _ => rfl
  | number value => exact reads_integer value
  | string text => exact fun _ => rfl
  | array _ ih => exact reads_array ih
  | object _ _ ih => exact reads_object ih

end Reading

/-- The text of a written value is read as this value. -/
theorem parse?_text {value : Json} (written : IsWritten value) :
    parse? value.text = some value := by
  have scanned : Token.scan? value.characters = some value.tokens := by
    obtain ⟨scanner, found, settles⟩ := scan_characters written []
    rw [Token.scan?, found]
    simpa using settles.finish
  have read : ofTokens? value.tokens = some value := by
    rw [ofTokens?, read_tokens written []]
    rfl
  rw [parse?, text, String.toList_ofList, ofCharacters?, scanned]
  exact read

end Json

end SparseLoop
