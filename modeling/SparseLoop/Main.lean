import SparseLoop.Command.Run

/-!
# The command

The program runs the command on the files and streams of its host, and ends with
the exit code of the run.
-/

namespace SparseLoop

namespace Command

/-- The number of an error of the system, which may come negated. -/
def errorNumber (code : UInt32) : UInt32 :=
  if code < 0x80000000 then code else 0 - code

/-- The problem that an error of the system is. -/
def FileProblem.ofError : IO.Error → FileProblem
  | .noFileOrDirectory _ _ _ => notFound
  | .inappropriateType _ code _ =>
    if errorNumber code = 21 then isADirectory else notADirectory
  | .permissionDenied _ _ _ => denied
  | .resourceExhausted path code details =>
    if errorNumber code = 28 then
      noSpace
    else
      other (toString (IO.Error.resourceExhausted path code details))
  | .invalidArgument path code details =>
    if errorNumber code = 36 then
      nameTooLong
    else
      other (toString (IO.Error.invalidArgument path code details))
  | error => other (toString error)

/-- Whether an action went through. -/
def succeeds (action : IO Unit) : IO Bool := do
  try
    action
    pure true
  catch _ =>
    pure false

/-- The system that the program runs on. -/
def hostSystem : System IO where
  read path := do
    try
      let bytes ← IO.FS.readBinFile path
      match String.fromUTF8? bytes with
      | some text => pure (.ok text)
      | none => pure (.error .notText)
    catch error =>
      pure (.error (.ofError error))
  write path text := do
    try
      IO.FS.writeFile path text
      pure (.ok ())
    catch error =>
      pure (.error (.ofError error))
  print text := succeeds do
    let output ← IO.getStdout
    output.putStr text
    output.flush
  report text := succeeds (IO.eprint text)

end Command

end SparseLoop

/-- Runs the command on the arguments of the program. -/
def main (arguments : List String) : IO UInt32 := do
  let exitCode ← SparseLoop.Command.run SparseLoop.Command.hostSystem arguments
  return exitCode.toUInt32
