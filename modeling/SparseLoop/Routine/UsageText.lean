import SparseLoop.Routine.Signature
import SparseLoop.Routine.UsageFunction

/-!
# The text of usage functions

A usage function is written as a C function in four parts: the declarations,
the preparation of the inputs and of the result, the calls of row functions,
and the calls of group functions by rounds.

Each part is a list of lines.  The order of calls is that of the plan, so the
text depends on nothing but the plan, the options and the naming.
-/

namespace SparseLoop

/-- The text of some lines, each with its end. -/
def textOfLines (lines : List String) : String :=
  String.join (lines.map (· ++ "\n"))

/-- The arguments with which row and group functions are called. -/
def Options.localArguments (options : Options) : String :=
  let signature : Signature := { baseType := options.baseType }
  (signature.withArrays "inLocal" "outLocal").arguments

/-- The name of the function of a row. -/
def Options.rowFunction (options : Options) (row : Nat) : String :=
  s!"{options.localFunction}_noloop_{options.suffix}{row}"

/-- The statement that sets the output pointer. -/
def Destination.line (options : Options) (depth : Nat) :
    Destination → String
  | result position =>
    let index := options.expressionText position
    indented depth s!"outLocal[0] = &{options.resultName}[{index}];"
  | scratch =>
    indented depth "outLocal[0] = compressed;"

namespace RowCall

/-- The lines of a call of a row function. -/
def lines (options : Options) (call : RowCall) : List String :=
  let pointer :=
    if call.setsPointer then [call.destination.line options 1] else []
  let name := options.rowFunction call.row
  [""] ++ pointer ++ [indented 1 s!"{name}({options.localArguments});"] ++
    call.copies.map (Copy.line options 1)

end RowCall

namespace GroupCall

/-- The statement that clears the scratch buffer, if the call writes there. -/
def clearingLines (scratchSize depth : Nat) (call : GroupCall) :
    List String :=
  match call.destination with
  | .result _ => []
  | .scratch =>
    [indented depth
      s!"for(e = 0; e < {scratchSize}; e++)  compressed[e] = 0;"]

/-- The call itself; where calls repeat, the key variable is set before. -/
def callLines (options : Options) (naming : GroupNaming)
    (isUnrolled : Bool) (depth : Nat) (call : GroupCall) : List String :=
  let name := naming options.modelName call.loop call.group
  let key := options.expressionText call.key
  if isUnrolled then
    [indented depth s!"{name}({key}, {options.localArguments});"]
  else
    [ indented depth s!"{options.keyName} = {key};",
      indented depth
        s!"{name}({options.keyName}, {options.localArguments});" ]

/-- The lines of a call of a group function. -/
def lines (options : Options) (naming : GroupNaming) (scratchSize : Nat)
    (isUnrolled : Bool) (depth : Nat) (call : GroupCall) : List String :=
  let pointer :=
    if call.setsPointer then [call.destination.line options depth] else []
  let copies :=
    match call.copyBack with
    | none => []
    | some chain =>
      chain.lines options.keyName (BucketCopies.lines options) depth
  pointer ++ call.clearingLines scratchSize depth ++
    call.callLines options naming isUnrolled depth ++ copies ++ [""]

end GroupCall

namespace Round

/-- The lines of a round, inside a counted loop where calls repeat. -/
def lines (options : Options) (naming : GroupNaming) (scratchSize : Nat)
    (round : Round) : List String :=
  let body (depth : Nat) :=
    round.calls.flatMap
      (GroupCall.lines options naming scratchSize round.isUnrolled depth)
  if round.isUnrolled then
    body 1
  else
    let it := options.iterationName
    [indented 1 s!"for({it} = 0; {it} < {round.count}; {it}++) \x7b"] ++
      body 2 ++ [indented 1 "\x7d"]

end Round

namespace KeyTable

/-- The declaration of a key table. -/
def line (options : Options) (table : KeyTable) : String :=
  let name := options.spell (.keyTable table.loop table.group)
  let keys := ", ".intercalate (table.keys.map toString)
  indented 1
    s!"static const unsigned long {name}[{table.length}] = \x7b{keys}\x7d;"

end KeyTable

namespace UsageFunction

/-- The first line of the function and its declarations. -/
def declarationLines (options : Options) (function : UsageFunction) :
    List String :=
  let signature : Signature := { baseType := options.baseType }
  let base := options.baseType
  let buffer :=
    if 0 < function.scratchSize then
      [indented 1 s!"{base} compressed[{function.scratchSize}];"]
    else
      []
  [ s!"void {options.usageFunction}({signature.parameters}) \x7b",
    indented 1 s!"{base} const * inLocal[{options.inputCount}];",
    indented 1 s!"{base} inLocal1 = 1;",
    indented 1 s!"{base} * outLocal[1];",
    indented 1 s!"unsigned long {options.iterationName};",
    indented 1 s!"unsigned long {options.keyName};",
    indented 1 s!"unsigned long {counterName};" ] ++
    buffer ++ function.keyTables.map (KeyTable.line options) ++
    [indented 1 s!"{base} * {options.resultName} = out[0];", ""]

/-- The lines that set the local inputs and clear the result. -/
def preparationLines (options : Options) (function : UsageFunction) :
    List String :=
  let others := (List.range (options.inputCount - 2)).map fun offset =>
    indented 1 s!"inLocal[{offset + 2}] = in[{offset + 1}];"
  [ indented 1 "inLocal[0] = in[0];",
    indented 1 "inLocal[1] = &inLocal1;" ] ++ others ++
    [ "",
      indented 1
        (s!"for(e = 0; e < {function.entryCount}; e++) " ++
          s!"{options.resultName}[e] = 0;"),
      "" ]

/-- The lines of the calls of row functions. -/
def rowLines (options : Options) (function : UsageFunction) : List String :=
  if function.rowCalls.isEmpty then
    []
  else
    function.rowCalls.flatMap (RowCall.lines options) ++ [""]

/-- The text of the function. -/
def text (options : Options) (naming : GroupNaming)
    (function : UsageFunction) : String :=
  textOfLines <|
    function.declarationLines options ++
      function.preparationLines options ++
      function.rowLines options ++
      function.rounds.flatMap
        (Round.lines options naming function.scratchSize) ++
      ["", "\x7d"]

/-- The text of the usage function of a description with its call plan. -/
def generate (options : Options) (sparsity : Sparsity) (plan : CallPlan)
    (naming : GroupNaming) : Except Failure String := do
  checkNames options
  let function ← make sparsity plan
  pure (function.text options naming)

end UsageFunction

end SparseLoop
