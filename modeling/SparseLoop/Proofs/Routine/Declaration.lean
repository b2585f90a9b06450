import SparseLoop.Routine.UsageText

/-!
# The declarations of a usage function

The text of a usage function begins with its parameters and its variables.  They
are given here as data: each is a name between two texts.  The name is the
caller's or the generator's, and the texts around it are fixed but for the type
of the values and the lengths of arrays.
-/

namespace SparseLoop

/-- A declared name between the texts around it. -/
structure Declaration where
  before : String
  name : String
  after : String
deriving DecidableEq, Repr

/-- The text of a declaration. -/
def Declaration.text (declaration : Declaration) : String :=
  declaration.before ++ declaration.name ++ declaration.after

/-- The declaration of a key table. -/
def KeyTable.declaration (options : Options) (table : KeyTable) :
    Declaration where
  before := "static const unsigned long "
  name := options.spell (.keyTable table.loop table.group)
  after :=
    let keys := ", ".intercalate (table.keys.map toString)
    s!"[{table.length}] = \x7b{keys}\x7d;"

namespace UsageFunction

/-- The parameters of the function. -/
def parameters (options : Options) : List Declaration :=
  let base := options.baseType
  [ ⟨s!"{base} const *const * ", "in", ""⟩,
    ⟨s!"{base} * const * ", "out", ""⟩,
    ⟨"struct LangCAtomicFun ", "atomicFun", ""⟩ ]

/-- The variables of the function, in the order of their declarations. -/
def localVariables (options : Options) (function : UsageFunction) :
    List Declaration :=
  let base := options.baseType
  [ ⟨s!"{base} const * ", "inLocal", s!"[{options.inputCount}];"⟩,
    ⟨s!"{base} ", "inLocal1", " = 1;"⟩,
    ⟨s!"{base} * ", "outLocal", "[1];"⟩,
    ⟨"unsigned long ", options.iterationName, ";"⟩,
    ⟨"unsigned long ", options.keyName, ";"⟩,
    ⟨"unsigned long ", counterName, ";"⟩ ] ++
    (if 0 < function.scratchSize then
      [⟨s!"{base} ", "compressed", s!"[{function.scratchSize}];"⟩]
    else
      []) ++
    function.keyTables.map (KeyTable.declaration options) ++
    [⟨s!"{base} * ", options.resultName, " = out[0];"⟩]

/-- Everything that the function declares. -/
def declarations (options : Options) (function : UsageFunction) :
    List Declaration :=
  parameters options ++ function.localVariables options

/-- The parameters are those of the calling convention. -/
theorem signature_parameters_eq (options : Options) :
    ({ baseType := options.baseType } : Signature).parameters =
      ", ".intercalate ((parameters options).map Declaration.text) := by
  simp [parameters, Declaration.text, Signature.parameters, toString,
    ← String.toList_inj]

/-- The first lines of the function are the texts of its declarations. -/
theorem declarationLines_eq (options : Options) (function : UsageFunction) :
    function.declarationLines options =
      [s!"void {options.usageFunction}(" ++
        ", ".intercalate ((parameters options).map Declaration.text) ++
          ") \x7b"] ++
        (function.localVariables options).map
          (fun declaration => indented 1 declaration.text) ++ [""] := by
  have tables : (function.keyTables.map (KeyTable.declaration options)).map
      (fun declaration => indented 1 declaration.text) =
        function.keyTables.map (KeyTable.line options) := by
    rw [List.map_map]
    refine List.map_congr_left fun table _ => ?_
    simp [Declaration.text, KeyTable.declaration, KeyTable.line, toString,
      String.append_assoc]
  rw [declarationLines, localVariables, ← signature_parameters_eq]
  simp only [List.map_append, tables]
  split <;>
    simp [Declaration.text, indented, toString, ← String.toList_inj]

end UsageFunction

end SparseLoop
