import Identicon.FileError
import Identicon.Path
import Identicon.Plane
import Identicon.Text.ByteLength

/-!
# File trees

Directories and files in memory, with the operations on them that paths name, and with their
failures. A path is followed name by name from the root or from the working directory; every name
but the last has to be that of a directory.

## Main definitions

* `FileTree`: what exists, by location.
* `FileTree.resolve`: the place a path leads to.
* `FileTree.readText`, `FileTree.createDirectories`, `FileTree.writeImage`: the operations.
-/

namespace Identicon

/-- Where something is: the names on the way from the root. -/
abbrev Location := List (List Char)

/-- What can be at a location. -/
inductive Node where
  | directory
  | file (bytes : ByteArray)
  /-- A file that holds an image. -/
  | image (i : Image)

/-- Everything that exists below the root, which always does, and the directory that relative paths
begin at. -/
structure FileTree where
  nodes : List (Location × Node)
  workingDirectory : Location

namespace FileTree

/-- The place a path leads to. -/
inductive Place where
  /-- A directory that exists, named by its root, `.` or `..`. -/
  | directory (location : Location)
  /-- A name in a directory that exists; whether a slash follows the name. -/
  | entry (directory : Location) (name : List Char) (slash : Bool)

/-- The node at a location. -/
def node? (t : FileTree) (location : Location) : Option Node :=
  if location.isEmpty then some .directory else t.nodes.lookup location

/-- Puts a node at a location, in place of what was there. -/
def put (t : FileTree) (location : Location) (node : Node) : FileTree :=
  { t with nodes := (location, node) :: t.nodes.filter (·.1 != location) }

/-- The greatest number of bytes in a name. -/
def longestName : Nat := 255

/-- The greatest number of bytes in a path. -/
def longestPath : Nat := 4095

/-- The node with a name in a directory. -/
def child? (t : FileTree) (directory : Location) (name : List Char) :
    Except FileError (Option Node) :=
  if longestName < Text.byteLength name then .error .nameTooLong
  else .ok (t.node? (directory ++ [name]))

/-- The directory that names lead to from a directory. -/
def walk (t : FileTree) (here : Location) : List (List Char) → Except FileError Location
  | [] => .ok here
  | name :: rest =>
    if Path.isSilent name then t.walk here rest
    else if name = ['.', '.'] then t.walk here.dropLast rest
    else
      match t.child? here name with
      | .error e => .error e
      | .ok none => .error .notFound
      | .ok (some .directory) => t.walk (here ++ [name]) rest
      | .ok (some _) => .error .notDirectory

/-- The place a path leads to. -/
def resolve (t : FileTree) (path : List Char) : Except FileError Place :=
  if path.isEmpty then .error .notFound
  else if longestPath < Text.byteLength path then .error .nameTooLong
  else
    let start := if Path.isAbsolute path then [] else t.workingDirectory
    let reversed := (Path.pieces path).reverse
    match reversed.dropWhile List.isEmpty with
    | [] => .ok (.directory start)
    | last :: before =>
      match t.walk start before.reverse with
      | .error e => .error e
      | .ok directory =>
        if last = ['.'] then .ok (.directory directory)
        else if last = ['.', '.'] then .ok (.directory directory.dropLast)
        else .ok (.entry directory last ((reversed.headD []).isEmpty))

/-- The text of a file. -/
def readText (t : FileTree) (path : List Char) : Except FileError String := do
  match ← t.resolve path with
  | .directory _ => throw .isDirectory
  | .entry directory name slash =>
    match ← t.child? directory name with
    | none => throw .notFound
    | some .directory => throw .isDirectory
    | some node =>
      if slash then throw .notDirectory
      match node with
      | .file bytes =>
        match String.fromUTF8? bytes with
        | some text => return text
        | none => throw .notText
      | _ => throw .notText

/-- Whether a path leads to a directory. -/
def isDirectory (t : FileTree) (path : List Char) : Bool :=
  match t.resolve path with
  | .ok (.directory _) => true
  | .ok (.entry directory name _) =>
    match t.child? directory name with
    | .ok (some .directory) => true
    | _ => false
  | .error _ => false

/-- Creates a directory in one that exists. -/
def createDirectory (t : FileTree) (path : List Char) : Except FileError FileTree := do
  match ← t.resolve path with
  | .directory _ => throw .alreadyExists
  | .entry directory name _ =>
    match ← t.child? directory name with
    | some _ => throw .alreadyExists
    | none => return t.put (directory ++ [name]) .directory

/-- Creates a directory, and the ones it has to be in as far as they do not exist. Directories that
have been created stay if a later one fails. -/
def createDirectories (t : FileTree) (path : List Char) : FileTree × Except FileError Unit :=
  if path.isEmpty then (t, .ok ())
  else
    match t.createDirectory path with
    | .ok t => (t, .ok ())
    | .error .notFound =>
      match Path.parent? path with
      | none => (t, .error (.other "failed to create whole tree"))
      | some parent =>
        if parent.length < path.length then
          match t.createDirectories parent with
          | (t, .error e) => (t, .error e)
          | (t, .ok ()) =>
            match t.createDirectory path with
            | .ok t => (t, .ok ())
            | .error e => (t, if t.isDirectory path then .ok () else .error e)
        else (t, .error .notFound)
    | .error e => (t, if t.isDirectory path then .ok () else .error e)
termination_by path.length

/-- Writes an image to a file, in place of what was in it. A name with a slash after it is that of a
directory. -/
def writeImage (t : FileTree) (path : List Char) (image : Image) : Except FileError FileTree := do
  match ← t.resolve path with
  | .directory _ => throw .isDirectory
  | .entry directory name slash =>
    if slash then throw .isDirectory
    match ← t.child? directory name with
    | some .directory => throw .isDirectory
    | _ => return t.put (directory ++ [name]) (.image image)

end FileTree

end Identicon
