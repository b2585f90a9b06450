import SparseLoop.Command.FileSystem

/-!
# Worlds

A `World` stands in for the system: the files are those of a file system, and
the streams are the texts that were put on them.

What is asked of a system can go wrong for reasons that no file shows, as on a
full disk.  `Faults` says when it does.  A file that is opened for writing is
changed thereby, whatever becomes of the text: writing that stops can leave
anything in it.  A stream that fails can have taken any text.
-/

namespace SparseLoop

namespace Command

/-- When a system does not do what is asked of it. -/
structure Faults where
  /-- Why the file at a path is not read. -/
  read : String → Option FileProblem := fun _ => none
  /-- Why the file at a path is not opened for writing. -/
  create : String → Option FileProblem := fun _ => none
  /-- Why the writing of a text to a path stops, and what is then in the
  file. -/
  write : String → String → Option (FileProblem × FileEntry) :=
    fun _ _ => none
  /-- What the standard output takes for a text on which it fails. -/
  print : String → Option String := fun _ => none
  /-- What the standard error takes for a text on which it fails. -/
  report : String → Option String := fun _ => none

/-- The files, and what has been put on the standard streams. -/
structure World where
  files : FileSystem
  /-- The standard output. -/
  output : String := ""
  /-- The standard error. -/
  reports : String := ""
deriving DecidableEq, Repr

namespace World

/-- The text of the file at a path. -/
def read (world : World) (faults : Faults) (path : String) :
    Except FileProblem String :=
  match faults.read path with
  | some problem => .error problem
  | none => world.files.readFile path

/-- Whether a text has been written to a path, and the world afterwards.  A
path that leads nowhere is found out before anything is changed. -/
def write (world : World) (faults : Faults) (path text : String) :
    Except FileProblem Unit × World :=
  match world.files.opened path with
  | .error problem => (.error problem, world)
  | .ok place =>
    match faults.create path, faults.write path text with
    | some problem, _ => (.error problem, world)
    | none, some (problem, left) =>
      (.error problem, { world with files := world.files.store place left })
    | none, none =>
      (.ok (), { world with files := world.files.store place (.file text) })

/-- Whether the standard output has taken a text, and the world afterwards. -/
def print (world : World) (faults : Faults) (text : String) : Bool × World :=
  match faults.print text with
  | none => (true, { world with output := world.output ++ text })
  | some part => (false, { world with output := world.output ++ part })

/-- Whether the standard error has taken a text, and the world afterwards. -/
def report (world : World) (faults : Faults) (text : String) : Bool × World :=
  match faults.report text with
  | none => (true, { world with reports := world.reports ++ text })
  | some part => (false, { world with reports := world.reports ++ part })

/-- The system of a world that is the state. -/
def system (faults : Faults) : System (StateM World) where
  read path := do
    pure ((← get).read faults path)
  write path text := modifyGet fun world => world.write faults path text
  print text := modifyGet fun world => world.print faults text
  report text := modifyGet fun world => world.report faults text

end World

end Command

end SparseLoop
