import Mathlib.Data.List.SplitBy
import SparseLoop.Proofs.Expression.Term
import SparseLoop.Proofs.Json.Spelling
import SparseLoop.Proofs.Pattern.Value

/-!
# What is written is read

An expression whose parentheses suffice is read from its text as the tree that
it is, and the tree has the value of the expression.

Scanning is an induction on the expression.  A blank, a parenthesis and a
bracket stand together with nothing, so they cut a text into parts that are
scanned alone, `scan?_around`.  Reading is another one, for any frames that are
already there: after the lexemes of an expression the reader has its last operand
in hand, and once the frames that bind as tightly as the expression are
completed, it has the whole, `reads_expression`.
-/

namespace SparseLoop

/-! ## Scanning -/

namespace Lexeme

variable {left right : List Char} {first second : List Lexeme}

theorem ofRuns?_append {runs others : List (List Char)}
    (before : ofRuns? runs = some first)
    (after : ofRuns? others = some second) :
    ofRuns? (runs ++ others) = some (first ++ second) := by
  induction runs generalizing first with
  | nil =>
    cases before
    exact after
  | cons run rest ih =>
    rw [List.cons_append, ofRuns?]
    rw [ofRuns?] at before
    split at before
    · next blank =>
      rw [if_pos blank]
      exact ih before
    · next solid =>
      simp only [Option.bind_eq_bind, Option.bind_eq_some_iff] at before
      obtain ⟨lexeme, found, others, remaining, equal⟩ := before
      cases equal
      rw [if_neg solid, found, ih remaining]
      rfl

/-- Texts that do not stand together are scanned one after the other. -/
theorem scan?_append
    (apart : ∀ last ∈ left.getLast?, ∀ next ∈ right.head?,
      joins last next = false)
    (before : scan? left = some first) (after : scan? right = some second) :
    scan? (left ++ right) = some (first ++ second) := by
  rw [scan?, List.splitBy_append apart]
  exact ofRuns?_append before after

/-- A character stands alone if it joins nothing. -/
def IsSeparator (character : Char) : Prop :=
  isWordCharacter character = false ∧ isOperatorCharacter character = false

instance (character : Char) : Decidable (IsSeparator character) :=
  inferInstanceAs (Decidable (_ ∧ _))

theorem joins_eq_false_of_left {character : Char}
    (alone : IsSeparator character) (other : Char) :
    joins character other = false := by
  simp [joins, alone.1, alone.2]

theorem joins_eq_false_of_right {character : Char}
    (alone : IsSeparator character) (other : Char) :
    joins other character = false := by
  simp [joins, alone.1, alone.2]

theorem scan?_nil : scan? [] = some [] :=
  rfl

/-- What stands before and after a separator is scanned alone. -/
theorem scan?_around (separator : Char) (alone : IsSeparator separator)
    {between : List Lexeme} (found : scan? [separator] = some between)
    (before : scan? left = some first) (after : scan? right = some second) :
    scan? (left ++ separator :: right) =
      some (first ++ (between ++ second)) := by
  have behind : scan? ([separator] ++ right) = some (between ++ second) :=
    scan?_append (fun last member next _ => by
      cases member
      exact joins_eq_false_of_left alone next) found after
  refine scan?_append (fun last _ next member => ?_) before behind
  cases member
  exact joins_eq_false_of_right alone last

/-- A run of characters that stand together is scanned as one lexeme. -/
theorem scan?_run {run : List Char} {lexeme : Lexeme} (inhabited : run ≠ [])
    (together : run.IsChain fun last next => joins last next = true)
    (found : ofRun? run = some lexeme) : scan? run = some [lexeme] := by
  have solid : run ≠ [' '] := by
    rintro rfl
    cases found
  rw [scan?, List.splitBy_of_isChain inhabited together, ofRuns?,
    if_neg solid, found]
  rfl

theorem isChain_joins {run : List Char}
    (word : ∀ character ∈ run, isWordCharacter character = true) :
    run.IsChain fun last next => joins last next = true :=
  (List.pairwise_of_forall_mem_list fun last among next member => by
    simp [joins, word last among, word next member]).isChain

theorem isName_eq_true {run : List Char} (named : isName run = true) :
    run ≠ [] ∧ ∀ character ∈ run, isWordCharacter character = true := by
  cases run with
  | nil => cases named
  | cons first rest =>
    simp only [isName, Bool.and_eq_true, List.all_eq_true] at named
    exact ⟨List.cons_ne_nil _ _,
      List.forall_mem_cons.mpr ⟨named.1.1, named.2⟩⟩

/-- No character stands in words and in operators. -/
theorem isOperatorCharacter_eq_false {character : Char}
    (word : isWordCharacter character = true) :
    isOperatorCharacter character = false := by
  rw [Bool.eq_false_iff]
  intro sign
  have member : character ∈ ['+', '-', '*', '=', '<', '>', '&', '|'] :=
    List.contains_iff_mem.mp sign
  simp only [List.mem_cons, List.not_mem_nil, or_false] at member
  rcases member with rfl | rfl | rfl | rfl | rfl | rfl | rfl | rfl <;>
    cases word

/-- Runs of word characters are no punctuation. -/
theorem ofRun?_of_word {run : List Char}
    (word : ∀ character ∈ run, isWordCharacter character = true) :
    ofRun? run =
      if isName run then
        some (name (String.ofList run))
      else
        match Operator.ofText? (String.ofList run) with
        | some found => some (operator found)
        | none => (Json.Spelling.natural? run).map number := by
  have apart : ∀ character, isWordCharacter character = false →
      run ≠ [character] := by
    rintro character plain rfl
    rw [word character List.mem_cons_self] at plain
    cases plain
  exact ofRun?.eq_5 run (apart '(' (by decide)) (apart ')' (by decide))
    (apart '[' (by decide)) (apart ']' (by decide))

theorem scan?_name {letters : String} (identifier : IsIdentifier letters) :
    scan? letters.toList = some [name letters] := by
  obtain ⟨inhabited, word⟩ := isName_eq_true identifier
  refine scan?_run inhabited (isChain_joins word) ?_
  rw [ofRun?_of_word word, if_pos (show isName letters.toList from identifier),
    String.ofList_toList]

theorem isWordCharacter_of_isDigit {character : Char}
    (digit : character.isDigit = true) : isWordCharacter character = true := by
  simp [isWordCharacter, Char.isAlphanum, digit]

theorem scan?_digits (value : Nat) :
    scan? (Json.Spelling.digits value) = some [number value] := by
  have digit : ∀ character ∈ Json.Spelling.digits value,
      character.isDigit = true :=
    fun _ member => Json.Spelling.isDigit_of_mem_digits member
  have word : ∀ character ∈ Json.Spelling.digits value,
      isWordCharacter character = true :=
    fun character member => isWordCharacter_of_isDigit (digit _ member)
  have inhabited := Json.Spelling.digits_ne_nil value
  refine scan?_run inhabited (isChain_joins word) ?_
  obtain ⟨first, rest, equal⟩ := List.exists_cons_of_ne_nil inhabited
  have front := digit first (by simp [equal])
  have unnamed : isName (Json.Spelling.digits value) = false := by
    rw [equal, isName, front]
    simp
  have unsigned :
      Operator.ofText? (String.ofList (Json.Spelling.digits value)) =
        none := by
    rw [Operator.ofText?, List.find?_eq_none]
    intro operator _ spelled
    have same := congrArg String.toList (eq_of_beq spelled)
    rw [String.toList_ofList, equal] at same
    cases operator <;>
    · obtain rfl := (List.cons.inj same).1
      exact absurd front (by decide)
  rw [ofRun?_of_word word, unnamed, unsigned,
    Json.Spelling.natural?_digits]
  rfl

theorem scan?_operator (found : Operator) :
    scan? found.text.toList = some [operator found] := by
  cases found <;> decide

/-- The spelling of an integer is scanned as digits, after a sign if it is
negative. -/
theorem scan?_integer (value : Int) :
    scan? (toString value).toList =
      some (if value < 0 then [operator .minus, number value.natAbs]
        else [number value.natAbs]) := by
  rw [Json.Spelling.toList_toString_int]
  split
  · have signed : scan? ['-'] = some [operator .minus] :=
      scan?_operator .minus
    refine scan?_append (fun last minus next among => ?_) signed
      (scan?_digits _)
    cases minus
    have digit := isWordCharacter_of_isDigit
      (Json.Spelling.isDigit_of_mem_digits (List.mem_of_mem_head? among))
    have plain : isWordCharacter '-' = false := by decide
    simp [joins, plain, isOperatorCharacter_eq_false digit]
  · exact scan?_digits _

end Lexeme

namespace Expression

variable {ν : Type} {spell : ν → String}

/-- How tightly an expression binds. -/
def rank : Expression ν → Nat
  | number value => if value < 0 then Operator.signRank else Operator.atomRank
  | binary operator _ _ => operator.rank
  | _ => Operator.atomRank

@[simp]
theorem rank_name (symbol : ν) : (name symbol).rank = Operator.atomRank :=
  rfl

@[simp]
theorem rank_binary (operator : Operator) (left right : Expression ν) :
    (binary operator left right).rank = operator.rank :=
  rfl

@[simp]
theorem rank_grouped (inner : Expression ν) :
    (grouped inner).rank = Operator.atomRank :=
  rfl

/-- A number binds more tightly than any operator, also with a sign. -/
theorem rank_lt_number (operator : Operator) (value : Int) :
    operator.rank < (number value : Expression ν).rank := by
  rw [rank]
  split
  · exact operator.rank_lt_signRank
  · exact operator.rank_lt_atomRank

/-- The parentheses of an expression suffice, and its names are identifiers. -/
def IsReadable (spell : ν → String) : Expression ν → Prop
  | number _ => True
  | name symbol => IsIdentifier (spell symbol)
  | entry table index =>
    IsIdentifier (spell table) ∧ index.IsReadable spell
  | binary operator left right =>
    (operator.rank ≤ left.rank ∧ operator.rank < right.rank) ∧
      left.IsReadable spell ∧ right.IsReadable spell
  | grouped inner => inner.IsReadable spell

/-- The lexemes of an expression. -/
def lexemes (spell : ν → String) : Expression ν → List Lexeme
  | number value =>
    if value < 0 then [.operator .minus, .number value.natAbs]
    else [.number value.natAbs]
  | name symbol => [.name (spell symbol)]
  | entry table index =>
    .name (spell table) :: .openEntry :: (index.lexemes spell ++ [.closeEntry])
  | binary operator left right =>
    left.lexemes spell ++ .operator operator :: right.lexemes spell
  | grouped inner => .openGroup :: (inner.lexemes spell ++ [.closeGroup])

/-- The tree of an expression. -/
def term (spell : ν → String) : Expression ν → Term
  | number value =>
    if value < 0 then .negative (.literal value.natAbs)
    else .literal value.natAbs
  | name symbol => .name (spell symbol)
  | entry table index => .entry (spell table) (index.term spell)
  | binary operator left right =>
    .binary operator (left.term spell) (right.term spell)
  | grouped inner => inner.term spell

/-- The text of an expression is scanned as its lexemes. -/
theorem scan?_text {expression : Expression ν}
    (readable : expression.IsReadable spell) :
    Lexeme.scan? (expression.text spell).toList =
      some (expression.lexemes spell) := by
  induction expression with
  | number value => exact Lexeme.scan?_integer value
  | name symbol => exact Lexeme.scan?_name (show IsIdentifier _ from readable)
  | entry table index ih =>
    obtain ⟨identifier, inside⟩ := readable
    have closed := Lexeme.scan?_around ']' (by decide) rfl (ih inside)
      Lexeme.scan?_nil
    have opened := Lexeme.scan?_around '[' (by decide) rfl
      (Lexeme.scan?_name identifier) closed
    have spelled : (entry table index).text spell =
        spell table ++ "[" ++ index.text spell ++ "]" := rfl
    rw [spelled]
    simpa [lexemes] using opened
  | binary operator left right ihLeft ihRight =>
    obtain ⟨_, leftReadable, rightReadable⟩ := readable
    have behind := Lexeme.scan?_around ' ' (by decide) rfl
      (Lexeme.scan?_operator operator) (ihRight rightReadable)
    have whole := Lexeme.scan?_around ' ' (by decide) rfl
      (ihLeft leftReadable) behind
    have spelled : (binary operator left right).text spell =
        left.text spell ++ " " ++ operator.text ++ " " ++
          right.text spell := rfl
    rw [spelled]
    simpa [lexemes] using whole
  | grouped inner ih =>
    have closed := Lexeme.scan?_around ')' (by decide) rfl (ih readable)
      Lexeme.scan?_nil
    have opened := Lexeme.scan?_around '(' (by decide) rfl
      Lexeme.scan?_nil closed
    have spelled : (grouped inner).text spell =
        "(" ++ inner.text spell ++ ")" := rfl
    rw [spelled]
    simpa [lexemes] using opened

end Expression

/-! ## Reading -/

namespace Term

/-- The innermost of some frames binds less tightly than some rank, or holds
whatever comes. -/
def Holds (rank : Nat) (frames : List Frame) : Prop :=
  ∀ frame ∈ frames.head?, ∀ term, frame.complete? rank term = none

variable {rank other : Nat} {frames : List Frame}

theorem holds_nil (rank : Nat) : Holds rank [] := by
  rintro _ ⟨⟩

theorem holds_group (rank : Nat) (frames : List Frame) :
    Holds rank (.group :: frames) := by
  rintro _ ⟨⟩ _
  rfl

theorem holds_entry (rank : Nat) (table : String) (frames : List Frame) :
    Holds rank (.entry table :: frames) := by
  rintro _ ⟨⟩ _
  rfl

theorem holds_operand (left : Term) {operator : Operator}
    (looser : operator.rank < rank) (frames : List Frame) :
    Holds rank (.operand left operator :: frames) := by
  rintro _ ⟨⟩ _
  exact if_neg (Nat.not_le.mpr looser)

theorem settle_of_holds (holds : Holds rank frames) (term : Term) :
    settle rank frames term = (frames, term) := by
  cases frames with
  | nil => rfl
  | cons frame outer => rw [settle, holds frame rfl term]

theorem Holds.mono (holds : Holds rank frames) (above : rank ≤ other) :
    Holds other frames := by
  intro frame innermost term
  have waiting := holds frame innermost term
  cases frame with
  | operand left operator =>
    simp only [Frame.complete?, ite_eq_right_iff, reduceCtorEq, imp_false]
      at waiting ⊢
    omega
  | sign => cases waiting
  | group => rfl
  | entry table => rfl

/-- A reader that was given the lexemes of an expression has its last operand in
hand, and the whole once the frames that bind as tightly as the expression are
completed. -/
theorem reads_expression {ν : Type} {spell : ν → String}
    {expression : Expression ν} (readable : expression.IsReadable spell)
    (holds : Holds expression.rank frames) :
    ∃ inner operand,
      (expression.lexemes spell).foldlM Reader.step ⟨frames, none⟩ =
        some ⟨inner, some operand⟩ ∧
      ∀ rank ≤ expression.rank,
        settle rank inner operand =
          settle rank frames (expression.term spell) := by
  induction expression generalizing frames with
  | number value =>
    rw [Expression.lexemes, Expression.term]
    split
    · exact ⟨_, _, rfl, fun _ _ => rfl⟩
    · exact ⟨_, _, rfl, fun _ _ => rfl⟩
  | name symbol => exact ⟨_, _, rfl, fun _ _ => rfl⟩
  | entry table index ih =>
    obtain ⟨inner, operand, read, settled⟩ :=
      ih readable.2 (holds_entry _ (spell table) frames)
    refine ⟨frames, .entry (spell table) (index.term spell), ?_,
      fun _ _ => rfl⟩
    have closing : settle 0 inner operand =
        (.entry (spell table) :: frames, index.term spell) :=
      settled 0 (Nat.zero_le _)
    rw [Expression.lexemes, List.foldlM_cons]
    simp [Reader.step, read, closing]
  | binary operator left right ihLeft ihRight =>
    obtain ⟨⟨leftRank, rightRank⟩, leftReadable, rightReadable⟩ := readable
    obtain ⟨inner, operand, read, settled⟩ :=
      ihLeft leftReadable (holds.mono leftRank)
    have first : settle operator.rank inner operand =
        (frames, left.term spell) := by
      rw [settled _ leftRank]
      exact settle_of_holds holds _
    obtain ⟨last, final, readLast, settledLast⟩ :=
      ihRight rightReadable
        (holds_operand (left.term spell) rightRank frames)
    refine ⟨last, final, ?_, fun rank below => ?_⟩
    · rw [Expression.lexemes, List.foldlM_append, read]
      simp [Reader.step, first, readLast]
    · have within : rank ≤ operator.rank := below
      rw [settledLast rank (by omega), settle, Frame.complete?,
        if_pos within, Expression.term]
  | grouped inside ih =>
    obtain ⟨inner, operand, read, settled⟩ :=
      ih readable (holds_group _ frames)
    refine ⟨frames, inside.term spell, ?_, fun _ _ => rfl⟩
    have closing : settle 0 inner operand =
        (.group :: frames, inside.term spell) :=
      settled 0 (Nat.zero_le _)
    rw [Expression.lexemes, List.foldlM_cons]
    simp [Reader.step, read, closing]

/-- An expression is read from its text as the tree that it is. -/
theorem read?_text {ν : Type} {spell : ν → String}
    {expression : Expression ν} (readable : expression.IsReadable spell) :
    read? (expression.text spell) = some (expression.term spell) := by
  obtain ⟨inner, operand, read, settled⟩ :=
    reads_expression readable (holds_nil _)
  rw [read?, Expression.scan?_text readable]
  simp [ofLexemes?, read, Reader.finish, settled 0 (Nat.zero_le _), settle]

/-- Operators of one rank group to the left, and a sign binds first. -/
example : read? "-a - b - 2 * c" =
    some (.binary .minus
      (.binary .minus (.negative (.name "a")) (.name "b"))
      (.binary .times (.literal 2) (.name "c"))) := by
  decide

/-- The tree of an expression has the value of the expression. -/
theorem value?_term {ν : Type} (spell : ν → String)
    (environment : Environment String) (expression : Expression ν) :
    (expression.term spell).value? environment =
      expression.value?
        ⟨environment.word ∘ spell, environment.table ∘ spell⟩ := by
  induction expression with
  | number value =>
    rw [Expression.term, Expression.value?_number]
    split
    · next negative =>
      have magnitude : value = -(value.natAbs : Int) := by omega
      conv_rhs => rw [magnitude, UInt64.ofInt_neg, Word.ofInt_natCast]
      rfl
    · next positive =>
      have magnitude : value = (value.natAbs : Int) := by omega
      conv_rhs => rw [magnitude, Word.ofInt_natCast]
      rfl
  | name symbol => rfl
  | entry table index ih =>
    rw [Expression.term, value?, ih]
    rfl
  | binary operator left right ihLeft ihRight =>
    rw [Expression.term, value?, ihLeft, ihRight]
    rfl
  | grouped inner ih => exact ih

end Term

end SparseLoop
