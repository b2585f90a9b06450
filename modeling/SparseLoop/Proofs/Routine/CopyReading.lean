import SparseLoop.Proofs.Expression.Variables
import SparseLoop.Proofs.Pattern.Text
import SparseLoop.Proofs.Range.Text
import SparseLoop.Proofs.Routine.CopyText

/-!
# Reading the lines of copies

The lines after a call are those of copies and of if/else constructs.
`CopyLine.read?` finds what a line is.  It looks at the characters of the line
and knows neither the copies nor the chain that the line was written for.  The
blanks at the beginning do not count, and whatever stands between the fixed
texts of a line is read as an expression.

Every line that is written is read as what it was written for.  The target of a
copy ends at the first bracket that is followed by the name of the scratch
buffer, since the targets have no bracket themselves.
-/

namespace SparseLoop

/-! ## Texts between texts -/

/-- What stands between two texts in a whole text that begins and ends with
them. -/
def between? (before after whole : List Char) : Option (List Char) := do
  let rest ← whole.dropPrefix? before
  rest.dropSuffix? after

theorem between?_append (before inner after : List Char) :
    between? before after (before ++ (inner ++ after)) = some inner := by
  have front : (before ++ (inner ++ after)).dropPrefix? before =
      some (inner ++ after) :=
    List.dropPrefix?_eq_some_iff.mpr ⟨before, rfl, beq_self_eq_true _⟩
  have back : (inner ++ after).dropSuffix? after = some inner :=
    List.dropSuffix?_eq_some_iff.mpr ⟨after, rfl, beq_self_eq_true _⟩
  rw [between?, front]
  exact back

/-- A text that ends otherwise is not between. -/
theorem between?_of_getLast? {before after whole : List Char}
    (inhabited : after ≠ []) (other : whole.getLast? ≠ after.getLast?) :
    between? before after whole = none := by
  rw [Option.eq_none_iff_forall_ne_some]
  intro inner found
  rw [between?, Option.bind_eq_bind, Option.bind_eq_some_iff] at found
  obtain ⟨rest, front, back⟩ := found
  obtain ⟨_, rfl, _⟩ := List.dropPrefix?_eq_some_iff.mp front
  obtain ⟨same, rfl, equal⟩ := List.dropSuffix?_eq_some_iff.mp back
  cases eq_of_beq equal
  apply other
  rw [← List.append_assoc, List.getLast?_append_of_ne_nil _ inhabited]

/-- A text is split at the first of its separators if there is none of the
separator's first character before. -/
theorem dropInfix?_append {front back separator : List Char} {first : Char}
    (begins : separator.head? = some first) (absent : first ∉ front) :
    (front ++ separator ++ back).dropInfix? separator =
      some (front, back) := by
  rw [List.dropInfix?_eq_some_iff]
  refine ⟨⟨separator, rfl, beq_self_eq_true _⟩, ?_⟩
  intro earlier same later equal matched
  cases eq_of_beq matched
  by_contra shorter
  have inside : earlier.length < front.length := Nat.lt_of_not_le shorter
  obtain ⟨rest, rfl⟩ : ∃ rest, separator = first :: rest := by
    cases separator with
    | nil => cases begins
    | cons head rest =>
      cases begins
      exact ⟨rest, rfl⟩
  have here := congrArg (·[earlier.length]?) equal
  simp only [List.append_assoc, List.getElem?_append_left inside,
    List.getElem?_append_right (Nat.le_refl _), Nat.sub_self,
    List.cons_append, List.getElem?_cons_zero] at here
  exact absent (List.mem_of_getElem? here)

/-! ## Lines -/

/-- A line of copies as it is understood. -/
inductive CopyLine where
  /-- An entry of the scratch buffer is added to an entry of the result. -/
  | copy (target source : Term)
  /-- The first test of an if/else construct. -/
  | opening (condition : Term)
  /-- A further test of a construct. -/
  | alternative (condition : Term)
  /-- The branch of a construct that is taken if no test holds. -/
  | last
  /-- The end of a construct. -/
  | closing
deriving DecidableEq, Repr

namespace CopyLine

/-- What a line without blanks before it is, given the name of the result. -/
def ofText? (resultName : String) (text : List Char) : Option CopyLine :=
  match between? (resultName.toList ++ ['[']) "];".toList text with
  | some places => do
    let (target, source) ← places.dropInfix? "] += compressed[".toList
    pure (.copy (← Term.read? (String.ofList target))
      (← Term.read? (String.ofList source)))
  | none =>
    if text = "\x7d".toList then
      some .closing
    else if text = "\x7d else \x7b".toList then
      some .last
    else
      match between? "if(".toList ") \x7b".toList text with
      | some condition => .opening <$> Term.read? (String.ofList condition)
      | none => do
        let condition ←
          between? "\x7d else if(".toList ") \x7b".toList text
        .alternative <$> Term.read? (String.ofList condition)

/-- What a line is, given the name of the result. -/
def read? (resultName line : String) : Option CopyLine :=
  ofText? resultName (line.toList.dropWhile (· = ' '))

/-- Whether a construct begins in a line. -/
def opens (resultName line : String) : Bool :=
  match read? resultName line with
  | some (.opening _) => true
  | _ => false

variable {resultName : String} {depth : Nat}

theorem read?_indented {text : String}
    (solid : ∀ first ∈ text.toList.head?, first ≠ ' ') :
    read? resultName (indented depth text) =
      ofText? resultName text.toList := by
  rw [read?, indented, String.toList_append, String.toList_ofList]
  congr 1
  rw [List.dropWhile_append_of_pos (by simp)]
  cases characters : text.toList with
  | nil => rfl
  | cons first rest =>
    rw [characters] at solid
    simp [solid first rfl]

/-- The line of a copy ends with a semicolon. -/
theorem between?_of_other_end {before text : List Char} (last : Char)
    (ends : text.getLast? = some last) (other : last ≠ ';') :
    between? before "];".toList text = none := by
  refine between?_of_getLast? (by decide) ?_
  rw [ends]
  exact fun same => other (Option.some.inj same)

theorem read?_closing :
    read? resultName (indented depth "\x7d") = some .closing := by
  rw [read?_indented (by simp), ofText?,
    between?_of_other_end '\x7d' rfl (by decide)]
  rfl

theorem read?_last :
    read? resultName (indented depth "\x7d else \x7b") = some .last := by
  rw [read?_indented (by simp), ofText?,
    between?_of_other_end '\x7b' rfl (by decide)]
  rfl

section Tests

variable {condition : Term} {guard : String}

theorem toList_test (opening guard : String) :
    (opening ++ guard ++ ") \x7b").toList =
      opening.toList ++ (guard.toList ++ ") \x7b".toList) := by
  rw [String.toList_append, String.toList_append, List.append_assoc]

/-- The line of a test is not that of a copy. -/
theorem between?_test (before : List Char) (opening guard : String) :
    between? before "];".toList (opening ++ guard ++ ") \x7b").toList =
      none := by
  refine between?_of_other_end '\x7b' ?_ (by decide)
  rw [toList_test, List.getLast?_append, List.getLast?_append]
  rfl

theorem read?_opening (read : Term.read? guard = some condition) :
    read? resultName (indented depth ("if(" ++ guard ++ ") \x7b")) =
      some (.opening condition) := by
  rw [read?_indented (by simp), ofText?, between?_test, if_neg (by simp),
    if_neg (by simp), toList_test, between?_append]
  simp only [String.ofList_toList, read]
  rfl

theorem read?_alternative (read : Term.read? guard = some condition) :
    read? resultName
        (indented depth ("\x7d else if(" ++ guard ++ ") \x7b")) =
      some (.alternative condition) := by
  have further : between? "if(".toList ") \x7b".toList
      ("\x7d else if(" ++ guard ++ ") \x7b").toList = none := by
    rw [toList_test]
    rfl
  rw [read?_indented (by simp), ofText?, between?_test, if_neg (by simp),
    if_neg (by simp), further, toList_test, between?_append]
  simp only [Option.bind_eq_bind, Option.bind_some, String.ofList_toList,
    read]
  rfl

end Tests

/-- The line of a copy is read as the copy if its target has no bracket. -/
theorem read?_copy {target source : String} {first second : Term}
    (named : IsIdentifier resultName) (plain : ']' ∉ target.toList)
    (readTarget : Term.read? target = some first)
    (readSource : Term.read? source = some second) :
    read? resultName
        (indented depth
          s!"{resultName}[{target}] += compressed[{source}];") =
      some (.copy first second) := by
  have characters :
      s!"{resultName}[{target}] += compressed[{source}];".toList =
        (resultName.toList ++ ['[']) ++
          ((target.toList ++ "] += compressed[".toList ++ source.toList) ++
            "];".toList) := by
    simp [toString]
  have solid : ∀ character ∈
      s!"{resultName}[{target}] += compressed[{source}];".toList.head?,
      character ≠ ' ' := by
    obtain ⟨inhabited, words⟩ := Lexeme.isName_eq_true named
    intro character leading blank
    rw [characters, List.append_assoc, List.head?_append_of_ne_nil _ inhabited]
      at leading
    have word := words character (List.mem_of_mem_head? leading)
    rw [blank] at word
    cases word
  have split : (target.toList ++ "] += compressed[".toList ++
      source.toList).dropInfix? "] += compressed[".toList =
        some (target.toList, source.toList) :=
    dropInfix?_append rfl plain
  rw [read?_indented solid, characters, ofText?, between?_append]
  simp only [split, Option.bind_eq_bind, Option.bind_some,
    String.ofList_toList, readTarget, readSource]
  rfl

end CopyLine

/-! ## Written copies -/

/-- A text without tables has no bracket. -/
theorem Expression.bracket_not_mem_text {ν : Type} {spell : ν → String}
    {expression : Expression ν} (tableless : expression.tableNames = [])
    (readable : expression.IsReadable spell) :
    ']' ∉ (expression.text spell).toList := by
  induction expression with
  | number value =>
    have digitless : ∀ value : Nat, ']' ∉ Json.Spelling.digits value :=
      fun _ member =>
        absurd (Json.Spelling.isDigit_of_mem_digits member) (by decide)
    rw [text, Json.Spelling.toList_toString_int]
    split
    · simp [digitless]
    · exact digitless _
  | name symbol =>
    intro member
    have word := (Lexeme.isName_eq_true
      (show IsIdentifier (spell symbol) from readable)).2 _ member
    cases word
  | entry table index => cases tableless
  | binary operator left right ihLeft ihRight =>
    obtain ⟨leftTableless, rightTableless⟩ :=
      List.append_eq_nil_iff.mp tableless
    have sign : ']' ∉ operator.text.toList := by
      cases operator <;> decide
    simp [text, toString, sign, ihLeft leftTableless readable.2.1,
      ihRight rightTableless readable.2.2]
  | grouped inner ih =>
    simp [text, toString, ih tableless readable]

theorem IndexPattern.current_isReadable (pattern : IndexPattern)
    (isUnrolled : Bool) {options : Options}
    (identifier : IsIdentifier options.iterationName) :
    (pattern.current isUnrolled).IsReadable options.spell := by
  rw [current]
  split
  · trivial
  · exact pattern.expression_isReadable identifier

namespace Copy

variable {options : Options} {copy : Copy}

/-- Both places of a copy can be read, and the target looks nothing up. -/
structure IsReadable (options : Options) (copy : Copy) : Prop where
  target : copy.target.IsReadable options.spell
  source : copy.source.IsReadable options.spell
  tableless : copy.target.tableNames = []

theorem ofPatterns_isReadable (isUnrolled : Bool)
    (target source : IndexPattern)
    (identifier : IsIdentifier options.iterationName) :
    (ofPatterns isUnrolled target source).IsReadable options where
  target := target.current_isReadable isUnrolled identifier
  source := source.current_isReadable isUnrolled identifier
  tableless := (target.current_isOver
    fun _ => List.mem_singleton_self Symbol.iteration).tableless

theorem IsReadable.read?_written (readable : copy.IsReadable options)
    (named : IsIdentifier options.resultName) (depth : Nat) :
    CopyLine.read? options.resultName (copy.written options depth) =
      some (.copy (copy.target.term options.spell)
        (copy.source.term options.spell)) :=
  CopyLine.read?_copy named
    (Expression.bracket_not_mem_text readable.tableless readable.target)
    (Term.read?_text readable.target) (Term.read?_text readable.source)

end Copy

end SparseLoop
