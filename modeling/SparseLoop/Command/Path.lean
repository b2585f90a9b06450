import SparseLoop.Command.System

/-!
# Paths

A path names a file by the directories that lead to it.  It begins at the root
if it begins with a slash, and at the working directory otherwise.  Slashes
separate its names, and several of them count as one.  A slash at the end says
that the last name is a directory.

A single dot names the directory where it stands, and two dots name the one
that holds it.
-/

namespace SparseLoop

namespace Command

/-- A path, taken apart at its slashes. -/
structure Path where
  isAbsolute : Bool
  /-- The names, none of them empty. -/
  names : List String
  /-- Whether a slash follows the last name. -/
  endsInSlash : Bool
deriving DecidableEq, Repr

namespace Path

/-- The greatest length of a path, in bytes. -/
def lengthLimit : Nat := 4095

/-- The greatest length of a name, in bytes. -/
def nameLimit : Nat := 255

/-- The parts of a text between its slashes, some of which may be empty. -/
def split : List Char → List (List Char)
  | [] => [[]]
  | character :: rest =>
    if character = '/' then
      [] :: split rest
    else
      match split rest with
      | [] => [[character]]
      | first :: others => (character :: first) :: others

/-- The path that a text spells. -/
def ofText (text : String) : Except FileProblem Path :=
  let characters := text.toList
  if characters.isEmpty then
    .error .notFound
  else if lengthLimit < text.utf8ByteSize then
    .error .nameTooLong
  else
    .ok
      { isAbsolute := characters.head? == some '/',
        names := ((split characters).filter (! ·.isEmpty)).map String.ofList,
        endsInSlash := characters.getLast? == some '/' }

end Path

end Command

end SparseLoop
