/-!
# Lengths in bytes

The length of a text as it is stored, in bytes of UTF-8. Positions in documents and the limits on
the names of files are counted in these.
-/

namespace Identicon.Text

/-- The number of bytes of a text. -/
def byteLength (text : List Char) : Nat :=
  text.foldl (fun bytes c => bytes + c.utf8Size) 0

end Identicon.Text
