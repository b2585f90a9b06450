/-!
# The system

The command reads one file and puts one text out, to another file or on the
standard output.  What explains a failure goes to the standard error.  It does
all this through a `System`, which is all it knows of the world outside.

Nothing here is sure to succeed.  A file that cannot be read or written gives a
`FileProblem`, whose text goes into the message of the command.  Writing can
meet its problem when some of the text is in the file already, and a stream can
fail after some of the text as well.
-/

namespace SparseLoop

namespace Command

/-- Why a file cannot be read or written. -/
inductive FileProblem where
  | notFound
  | denied
  | notADirectory
  | isADirectory
  | noSpace
  | nameTooLong
  | notText
  /-- Another reason, with its text. -/
  | other (text : String)
deriving DecidableEq, Repr

/-- The text of a problem. -/
def FileProblem.message : FileProblem → String
  | notFound => "No such file or directory (os error 2)"
  | denied => "Permission denied (os error 13)"
  | notADirectory => "Not a directory (os error 20)"
  | isADirectory => "Is a directory (os error 21)"
  | noSpace => "No space left on device (os error 28)"
  | nameTooLong => "File name too long (os error 36)"
  | notText => "stream did not contain valid UTF-8"
  | other text => text

/-- The ways to files and to the standard streams. -/
structure System (m : Type → Type) where
  /-- The text of the file at a path. -/
  read : String → m (Except FileProblem String)
  /-- Makes a text the content of the file at a path.  The file may be made or
  changed even if there is a problem. -/
  write : String → String → m (Except FileProblem Unit)
  /-- Puts a text on the standard output, and says whether all of it went
  there. -/
  print : String → m Bool
  /-- Puts a text on the standard error, and says whether all of it went
  there. -/
  report : String → m Bool

end Command

end SparseLoop
