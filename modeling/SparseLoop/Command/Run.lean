import SparseLoop.Command.Arguments
import SparseLoop.Command.System
import SparseLoop.Provenance

/-!
# Runs of the command

A run reads a request, generates both functions, and puts out the text of the
stage that was asked for.  Everything is generated before anything is put out,
so a run that stops before that leaves no output, and all stages stop alike.

A run ends with exit code one if the request is at fault, and with two if the
arguments or the files are.
-/

namespace SparseLoop

namespace Command

variable {m : Type → Type} [Monad m]

/-- The name under which the command reports. -/
def programName : String :=
  "loopgen"

/-- What the command says when it is asked for help. -/
def helpText : String :=
  s!"Usage: {programName} [OPTIONS] <REQUEST>\n"

/-- The exit code of a run that a standard stream has failed. -/
def abortCode : Nat :=
  101

/-- Why a run stops. -/
structure Stop where
  exitCode : Nat
  /-- What explains the stop: one line, unless a path in it has several. -/
  message : String
deriving DecidableEq, Repr

namespace Stop

/-- The stop at a request at fault. -/
def ofFailure (failure : Failure) : Stop where
  exitCode := 1
  message := s!"{programName}: error[{failure.code}]: {failure.message}"

/-- The stop at a file that cannot be read or written. -/
def ofProblem (path : String) (problem : FileProblem) : Stop where
  exitCode := 2
  message := s!"{programName}: error: {path}: {problem.message}"

/-- Reports a stop and ends the run with its exit code. -/
def finish (system : System m) (stop : Stop) : m Nat := do
  if ← system.report (stop.message ++ "\n") then
    pure stop.exitCode
  else
    pure abortCode

end Stop

/-- The text of a stage. -/
def Stage.text (stage : Stage) (request : Request) (source : GeneratedSource) :
    String :=
  match stage with
  | combined => source.text
  | dispatch => source.dispatch
  | usage => source.usage
  | buildInfo => (Provenance.ofGeneration request source).text

/-- The text of a stage for the text of a request. -/
def Stage.produce (stage : Stage) (requestText : String) :
    Except Failure String := do
  let request ← Request.ofText requestText
  let source ← request.generate
  pure (stage.text request source)

/-- Puts out a text, to a file or on the standard output, and ends the run. -/
def deliver (system : System m) (output : Option String) (text : String) :
    m Nat := do
  match output with
  | none =>
    if ← system.print text then
      pure 0
    else
      pure abortCode
  | some path =>
    match ← system.write path text with
    | .ok _ => pure 0
    | .error problem => (Stop.ofProblem path problem).finish system

/-- Carries out an order to generate a text. -/
def generate (system : System m) (invocation : Invocation) : m Nat := do
  match ← system.read invocation.request with
  | .error problem =>
    (Stop.ofProblem invocation.request problem).finish system
  | .ok requestText =>
    match invocation.stage.produce requestText with
    | .error failure => (Stop.ofFailure failure).finish system
    | .ok text => deliver system invocation.output text

/-- Puts out what was asked for instead of a text, whether or not the standard
output takes it. -/
def answer (system : System m) (text : String) : m Nat := do
  let _ ← system.print text
  pure 0

/-- Runs the command, and gives its exit code. -/
def run (system : System m) (arguments : List String) : m Nat :=
  match Directive.ofArguments arguments with
  | .generate invocation => generate system invocation
  | .showVersion => answer system s!"{programName} {generatorVersion}\n"
  | .showHelp => answer system helpText
  | .reject => pure 2

end Command

end SparseLoop
