import SparseLoop.Proofs.Routine.CopyText
import SparseLoop.Proofs.Routine.Declaration

/-!
# The statements of a usage function

The text of a usage function consists of declarations and of statements.  The
statements are given here as data, in the order in which they are written, so
that they can be run.  How each is written stands beside it.  `text_eq` says
that the text of the function is that of its declarations and statements and of
nothing else.

A call names its function.  Inside a counted loop the key of a call is first
assigned to the key variable, and the call passes the variable.
-/

namespace SparseLoop

/-- A simple statement, or an if/else construct that guards copies. -/
inductive Statement where
  | blank
  /-- A local input is an input of the function. -/
  | takeInput (slot source : Nat)
  /-- The local input one is the constant one. -/
  | takeUnit
  | clearResult (count : Nat)
  | clearScratch (count : Nat)
  | point (destination : Destination)
  | setKey (key : Expression Symbol)
  | call (function : String) (key : Option (Expression Symbol))
  | add (copy : Copy)
  | copyBack (chain : Chain BucketCopies)
deriving DecidableEq, Repr

namespace Statement

/-- The lines of a statement. -/
def lines (options : Options) (depth : Nat) : Statement → List String
  | blank => [""]
  | takeInput slot source =>
    [indented depth s!"inLocal[{slot}] = in[{source}];"]
  | takeUnit => [indented depth "inLocal[1] = &inLocal1;"]
  | clearResult count =>
    [indented depth
      (s!"for(e = 0; e < {count}; e++) " ++
        s!"{options.resultName}[e] = 0;")]
  | clearScratch count =>
    [indented depth
      s!"for(e = 0; e < {count}; e++)  compressed[e] = 0;"]
  | point (.result position) =>
    let index := position.text options.spell
    [indented depth s!"outLocal[0] = &{options.resultName}[{index}];"]
  | point .scratch => [indented depth "outLocal[0] = compressed;"]
  | setKey key =>
    [indented depth s!"{options.keyName} = {key.text options.spell};"]
  | call function none =>
    let arrays := "inLocal, outLocal, atomicFun"
    [indented depth s!"{function}({arrays});"]
  | call function (some key) =>
    let arrays := "inLocal, outLocal, atomicFun"
    [indented depth s!"{function}({key.text options.spell}, {arrays});"]
  | add copy => [copy.written options depth]
  | copyBack chain =>
    chain.written options.keyName (BucketCopies.written options) depth

theorem lines_point (options : Options) (depth : Nat)
    (destination : Destination) :
    (point destination).lines options depth =
      [destination.line options depth] := by
  cases destination <;> rfl

/-- Statements of one line each. -/
theorem lines_map {α : Type} (options : Options) (depth : Nat)
    (make : α → Statement) {line : α → String}
    (single : ∀ source, (make source).lines options depth = [line source])
    (sources : List α) :
    (sources.map make).flatMap (lines options depth) =
      sources.map line := by
  rw [List.flatMap_map, List.map_eq_flatMap]
  exact List.flatMap_congr fun source _ => single source

end Statement

/-- A statement at the top of the function, or a counted loop. -/
inductive Part where
  | once (statement : Statement)
  | counted (count : Nat) (body : List Statement)
deriving DecidableEq, Repr

namespace Part

/-- The lines of a part. -/
def lines (options : Options) : Part → List String
  | once statement => statement.lines options 1
  | counted count body =>
    let it := options.iterationName
    [indented 1 s!"for({it} = 0; {it} < {count}; {it}++) \x7b"] ++
      body.flatMap (Statement.lines options 2) ++ [indented 1 "\x7d"]

theorem lines_map_once (options : Options) (statements : List Statement) :
    (statements.map once).flatMap (lines options) =
      statements.flatMap (Statement.lines options 1) := by
  rw [List.flatMap_map]
  rfl

end Part

namespace RowCall

/-- The statements of a call of a row function. -/
def statements (options : Options) (call : RowCall) : List Statement :=
  let pointer :=
    if call.setsPointer then [.point call.destination] else []
  [.blank] ++ pointer ++ [.call (options.rowFunction call.row) none] ++
    call.copies.map .add

theorem lines_eq (options : Options) (call : RowCall) :
    call.lines options =
      (call.statements options).flatMap (Statement.lines options 1) := by
  have copies := Statement.lines_map options 1 .add (fun _ => rfl)
    call.copies
  rw [lines, statements, List.flatMap_append, copies]
  cases call.setsPointer with
  | false => rfl
  | true =>
    simp only [if_true, List.flatMap_append, List.flatMap_singleton,
      Statement.lines_point]
    rfl

end RowCall

/-- The statements that clear the scratch buffer for a call that writes
there. -/
def Destination.clearing (scratchSize : Nat) :
    Destination → List Statement
  | result _ => []
  | scratch => [.clearScratch scratchSize]

namespace GroupCall

/-- The statements of a call of a group function. -/
def statements (options : Options) (naming : GroupNaming)
    (scratchSize : Nat) (isUnrolled : Bool) (call : GroupCall) :
    List Statement :=
  let pointer :=
    if call.setsPointer then [.point call.destination] else []
  let clearing := call.destination.clearing scratchSize
  let name := naming options.modelName call.loop call.group
  let calling :=
    if isUnrolled then
      [.call name (some call.key)]
    else
      [.setKey call.key, .call name (some (.name .key))]
  pointer ++ clearing ++ calling ++
    call.copyBack.toList.map .copyBack ++ [.blank]

theorem lines_eq (options : Options) (naming : GroupNaming)
    (scratchSize depth : Nat) (isUnrolled : Bool) (call : GroupCall) :
    call.lines options naming scratchSize isUnrolled depth =
      (call.statements options naming scratchSize isUnrolled).flatMap
        (Statement.lines options depth) := by
  obtain ⟨loop, group, destination, setsPointer, key, copyBack⟩ := call
  rw [lines, statements, clearingLines, callLines]
  simp only [List.flatMap_append, List.flatMap_singleton, Statement.lines]
  congr 1
  · congr 1
    · congr 1
      · congr 1
        · cases setsPointer with
          | false => rfl
          | true =>
            rw [if_pos rfl, if_pos rfl, List.flatMap_singleton,
              Statement.lines_point]
        · cases destination <;> rfl
      · cases isUnrolled <;> rfl
    · cases copyBack with
      | none => rfl
      | some chain =>
      exact (Chain.lines_copies_eq_written options depth chain).trans
        (List.append_nil _).symm

end GroupCall

namespace Round

/-- The parts of a round. -/
def parts (options : Options) (naming : GroupNaming) (scratchSize : Nat)
    (round : Round) : List Part :=
  let body := round.calls.flatMap
    (GroupCall.statements options naming scratchSize round.isUnrolled)
  if round.isUnrolled then
    body.map .once
  else
    [.counted round.count body]

theorem lines_eq (options : Options) (naming : GroupNaming)
    (scratchSize : Nat) (round : Round) :
    round.lines options naming scratchSize =
      (round.parts options naming scratchSize).flatMap
        (Part.lines options) := by
  have body : ∀ depth,
      round.calls.flatMap
          (GroupCall.lines options naming scratchSize round.isUnrolled
            depth) =
        (round.calls.flatMap (GroupCall.statements options naming
          scratchSize round.isUnrolled)).flatMap
            (Statement.lines options depth) := by
    intro depth
    rw [List.flatMap_assoc]
    exact List.flatMap_congr fun call _ =>
      GroupCall.lines_eq options naming scratchSize depth _ call
  rw [lines, parts]
  dsimp only
  split
  · rw [body, Part.lines_map_once]
  · rw [body, List.flatMap_singleton]
    rfl

end Round

namespace UsageFunction

/-- The statements that set the local inputs and clear the result. -/
def preparation (options : Options) (function : UsageFunction) :
    List Statement :=
  let others := (List.range (options.inputCount - 2)).map fun offset =>
    Statement.takeInput (offset + 2) (offset + 1)
  [.takeInput 0 0, .takeUnit] ++ others ++
    [.blank, .clearResult function.entryCount, .blank]

/-- The statements of the calls of row functions. -/
def rowStatements (options : Options) (function : UsageFunction) :
    List Statement :=
  if function.rowCalls.isEmpty then
    []
  else
    function.rowCalls.flatMap (RowCall.statements options) ++ [.blank]

/-- All parts of the function after its declarations. -/
def parts (options : Options) (naming : GroupNaming)
    (function : UsageFunction) : List Part :=
  (function.preparation options ++ function.rowStatements options).map
      .once ++
    function.rounds.flatMap
      (Round.parts options naming function.scratchSize) ++
    [.once .blank]

/-- The lines of the function: the parameters, the variables, the parts and the
last brace. -/
def lines (options : Options) (naming : GroupNaming)
    (function : UsageFunction) : List String :=
  [s!"void {options.usageFunction}(" ++
    ", ".intercalate ((parameters options).map Declaration.text) ++
      ") \x7b"] ++
    (function.localVariables options).map
      (fun declaration => indented 1 declaration.text) ++ [""] ++
    (function.parts options naming).flatMap (Part.lines options) ++
    ["\x7d"]

/-- The text of a function is that of its declarations and statements. -/
theorem text_eq (options : Options) (naming : GroupNaming)
    (function : UsageFunction) :
    function.text options naming =
      textOfLines (function.lines options naming) := by
  have rows : function.rowLines options =
      (function.rowStatements options).flatMap
        (Statement.lines options 1) := by
    rw [rowLines, rowStatements]
    split
    · rfl
    · rw [List.flatMap_append, List.flatMap_assoc]
      congr 1
      exact List.flatMap_congr fun call _ => RowCall.lines_eq options call
  have rounds : function.rounds.flatMap
      (Round.lines options naming function.scratchSize) =
        (function.rounds.flatMap
          (Round.parts options naming function.scratchSize)).flatMap
            (Part.lines options) := by
    rw [List.flatMap_assoc]
    exact List.flatMap_congr fun round _ =>
      Round.lines_eq options naming function.scratchSize round
  have prepared : function.preparationLines options =
      (function.preparation options).flatMap
        (Statement.lines options 1) := by
    have others := Statement.lines_map options 1
      (fun offset => .takeInput (offset + 2) (offset + 1))
      (fun _ => rfl) (List.range (options.inputCount - 2))
    rw [preparationLines, preparation, List.flatMap_append,
      List.flatMap_append, others]
    rfl
  rw [text, lines, declarationLines_eq, parts, rows, rounds, prepared,
    List.flatMap_append, List.flatMap_append, Part.lines_map_once,
    List.flatMap_append]
  simp [Part.lines, Statement.lines, List.append_assoc]

end UsageFunction

end SparseLoop
