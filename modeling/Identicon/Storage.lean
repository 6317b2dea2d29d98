import Identicon.FileTree

/-!
# Storage

What a program does to the world while it runs: it reads and writes files, creates directories, and
tells its progress line by line. A program written against `Storage` runs on the file system of a
machine as well as on a file tree in memory, where the whole run can be reasoned about.
-/

namespace Identicon

/-- The effects of a program. -/
class Storage (m : Type → Type) where
  /-- The text of a file. -/
  readText : String → m (Except FileError String)
  /-- Creates a directory and the ones it has to be in. -/
  createDirectories : String → m (Except FileError Unit)
  /-- Writes an image to a file. -/
  writeImage : String → Image → m (Except FileError Unit)
  /-- Tells a line of progress. -/
  tell : String → m Unit

/-- A program that can end early has the effects of the program it is made from. -/
instance {m : Type → Type} {ε : Type} [Monad m] [Storage m] : Storage (ExceptT ε m) where
  readText path := ExceptT.lift (Storage.readText path)
  createDirectories path := ExceptT.lift (Storage.createDirectories path)
  writeImage path image := ExceptT.lift (Storage.writeImage path image)
  tell line := ExceptT.lift (Storage.tell line)

/-- A file tree, and the lines that have been told. -/
structure Memory where
  tree : FileTree
  told : List String

instance : Storage (StateM Memory) where
  readText path := return (← get).tree.readText path.toList
  createDirectories path := modifyGet fun w =>
    let (tree, result) := w.tree.createDirectories path.toList
    (result, { w with tree })
  writeImage path image := modifyGet fun w =>
    match w.tree.writeImage path.toList image with
    | .ok tree => (.ok (), { w with tree })
    | .error e => (.error e, w)
  tell line := modify fun w => { w with told := w.told ++ [line] }

end Identicon
