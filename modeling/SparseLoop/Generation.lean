import SparseLoop.Request.Canonical
import SparseLoop.Request.Decoding
import SparseLoop.Routine.DispatchFunction

/-!
# Generation

A request is turned into two C functions: the dispatch function with the
declarations before it, and the usage function.  Both are pure functions of the
request, of the naming of group functions and of the pattern detector.
-/

namespace SparseLoop

/-- The two generated texts. -/
structure GeneratedSource where
  dispatch : String
  usage : String
deriving DecidableEq, Repr

/-- Both texts as one file. -/
def GeneratedSource.text (source : GeneratedSource) : String :=
  s!"{source.dispatch}\n{source.usage}"

namespace Request

/-- Generates with a naming and a detector of the caller's. -/
def generateWith (request : Request) (naming : GroupNaming)
    (detector : Detector) : Except Failure GeneratedSource := do
  match request.missingLoop? with
  | some loop => throw (.unknownLoop loop)
  | none => pure ()
  let plan ← request.usage.callPlan detector
  let usage ←
    UsageFunction.generate request.options request.usage plan naming
  pure
    { dispatch :=
        DispatchFunction.generate request.options request.usage naming
      usage }

/-- Generates with the naming of the options and with affine patterns. -/
def generate (request : Request) : Except Failure GeneratedSource :=
  request.generateWith request.options.groupNaming Detector.affine

end Request

end SparseLoop
