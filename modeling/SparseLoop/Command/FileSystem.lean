import SparseLoop.Command.Path

/-!
# File systems

A `FileSystem` is a tree of directories with files in them, one of which is the
working directory.

A path is walked name by name, and each name but the last must be that of a
directory.  The first name that leads nowhere decides what the problem is.  To
write a file its directory must exist, but the file need not.
-/

namespace SparseLoop

namespace Command

/-- What stands at a place of a file system. -/
inductive FileEntry where
  | file (content : String)
  /-- A file whose bytes are not those of a text. -/
  | binary
  | directory
  /-- A device that is empty when read and forgets what is written to it. -/
  | nullDevice
deriving DecidableEq, Repr

/-- A tree of files, by the names that lead to each from the root. -/
structure FileSystem where
  /-- The entries below the root. -/
  entries : List (List String × FileEntry)
  workingDirectory : List String := []
deriving DecidableEq, Repr

namespace FileSystem

/-- What stands at a place. -/
def entry? (files : FileSystem) (place : List String) : Option FileEntry :=
  if place.isEmpty then some .directory else files.entries.lookup place

/-- Whether a directory stands at a place. -/
def isDirectory (files : FileSystem) (place : List String) : Bool :=
  files.entry? place == some .directory

/-- The file system with an entry put at a place. -/
def put (files : FileSystem) (place : List String) (entry : FileEntry) :
    FileSystem :=
  { files with
    entries := (place, entry) :: files.entries.filter (·.1 != place) }

/-- The content of the file of a name in the working directory. -/
def content? (files : FileSystem) (name : String) : Option String :=
  match files.entry? (files.workingDirectory ++ [name]) with
  | some (.file content) => some content
  | _ => none

/-- The place where the walk of a path begins. -/
def start (files : FileSystem) (path : Path) : List String :=
  if path.isAbsolute then [] else files.workingDirectory

/-- The place that a name leads to from a place, which must be a directory.
The directory that holds the root is the root. -/
def enter (files : FileSystem) (place : List String) (name : String) :
    Except FileProblem (List String) :=
  if ! files.isDirectory place then
    .error .notADirectory
  else if name = "." then
    .ok place
  else if name = ".." then
    .ok place.dropLast
  else if Path.nameLimit < name.utf8ByteSize then
    .error .nameTooLong
  else if (files.entry? (place ++ [name])).isSome then
    .ok (place ++ [name])
  else
    .error .notFound

/-- The text of the file at a path. -/
def readFile (files : FileSystem) (text : String) :
    Except FileProblem String := do
  let path ← Path.ofText text
  let place ← path.names.foldlM files.enter (files.start path)
  match files.entry? place with
  | none => throw .notFound
  | some .directory => throw .isADirectory
  | some (.file content) =>
    if path.endsInSlash then throw .notADirectory else pure content
  | some .binary =>
    throw (if path.endsInSlash then .notADirectory else .notText)
  | some .nullDevice =>
    if path.endsInSlash then throw .notADirectory else pure ""

/-- The place at which a path asks for a file to be written.  The problems of
the directory come before those of the name in it. -/
def target (files : FileSystem) (path : Path) :
    Except FileProblem (List String) := do
  match path.names.getLast? with
  | none => throw .isADirectory
  | some name =>
    let parent ← path.names.dropLast.foldlM files.enter (files.start path)
    if ! files.isDirectory parent then
      throw .notADirectory
    else if name = "." ∨ name = ".." ∨ path.endsInSlash then
      throw .isADirectory
    else if Path.nameLimit < name.utf8ByteSize then
      throw .nameTooLong
    else
      pure (parent ++ [name])

/-- The place that a path opens for writing. -/
def opened (files : FileSystem) (text : String) :
    Except FileProblem (List String) := do
  let path ← Path.ofText text
  let place ← files.target path
  if files.isDirectory place then
    throw .isADirectory
  else
    pure place

/-- The file system after an entry has been stored at a place that was opened.
A null device stays what it is. -/
def store (files : FileSystem) (place : List String) (entry : FileEntry) :
    FileSystem :=
  if files.entry? place = some .nullDevice then
    files
  else
    files.put place entry

end FileSystem

end Command

end SparseLoop
