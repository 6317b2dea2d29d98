/-!
# Paths

The text of a path and what it says: names with slashes between them, an initial slash for a path
from the root, and the special names `.` and `..`.

Doubled slashes, a slash at the end, and a `.` anywhere but at the beginning say nothing. They are
kept in the text, as messages show a path as it was written, and skipped when its parts are looked
at.

## Main definitions

* `Path.pieces`: the text between the slashes.
* `Path.parent?`: the path without its last part.
* `Path.join`: a path seen from a directory.
-/

namespace Identicon.Path

/-- The pieces of a text between the slashes; there is one more of them than there are slashes. -/
def pieces : List Char → List (List Char)
  | [] => [[]]
  | c :: rest =>
    if c = '/' then [] :: pieces rest
    else
      match pieces rest with
      | [] => [[c]]
      | p :: ps => (c :: p) :: ps

/-- Pieces with slashes between them. -/
def joined : List (List Char) → List Char
  | [] => []
  | [p] => p
  | p :: ps => p ++ '/' :: joined ps

/-- Whether a path begins at the root. -/
def isAbsolute (path : List Char) : Bool :=
  path.head? == some '/'

/-- Whether a piece after the first says nothing. -/
def isSilent (piece : List Char) : Bool :=
  piece.isEmpty || piece == ['.']

/-- Pieces in reverse order without the silent ones at the front. The piece at the very beginning of
the path, the last one here, is silent only if it is empty. -/
def dropSilent : List (List Char) → List (List Char)
  | [] => []
  | [p] => if p.isEmpty then [] else [p]
  | p :: ps => if isSilent p then dropSilent ps else p :: ps

/-- The path without its last part, without silent pieces at its end. A path of one part has the
empty path for its parent, and a path without parts has none. -/
def parent? (path : List Char) : Option (List Char) :=
  match dropSilent (pieces path).reverse with
  | [] => none
  | _ :: rest =>
    match dropSilent rest with
    | [] => some (if isAbsolute path then ['/'] else [])
    | kept => some (joined kept.reverse)

/-- The path `name` seen from the directory `base`: a path from the root stays as it is. -/
def join (base name : List Char) : List Char :=
  if isAbsolute name then name
  else if base.isEmpty || base.getLast? == some '/' then base ++ name
  else base ++ '/' :: name

end Identicon.Path
