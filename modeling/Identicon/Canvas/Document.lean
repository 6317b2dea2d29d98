import Identicon.Canvas
import Identicon.Json.Scalar

/-!
# Canvases as documents

A canvas is written as an object with the one member `half_size`. It is read from an object that has
this member among others, or from an array of one number. Any half size of 32 bits is accepted: a
canvas that is read need not be one that can be drawn on.
-/

namespace Identicon.Canvas

open Json (Value Reader Fault)

/-- The written form of a canvas. -/
def toJson (c : Canvas) : Value :=
  .object [("half_size".toList, .number (.integer c.halfSize.toNat))]

/-- Reads a half size. -/
def readHalfSize : Reader UInt32 := fun s => do
  let (n, s) ← Json.readUnsigned "u32" UInt32.size s
  return (n.toUInt32, s)

/-- Reads one member of the object. -/
def readMember (seen : Option UInt32) (key : List Char) : Reader (Option UInt32) := fun s => do
  if key = "half_size".toList then Json.readField "half_size" seen readHalfSize s
  else
    let s ← Json.readColon s
    return (seen, ← Json.skipValue s)

/-- Reads the rest of an object. -/
def readMembers : Reader Canvas := fun s => do
  let (seen, rest) ← Json.foldMembers readMember none true s
  return (⟨← Json.required "half_size" seen rest⟩, rest)

/-- Reads the items of an array. -/
def readItems : Reader Canvas := fun s => do
  match ← Json.readItem? readHalfSize true s with
  | (some halfSize, rest) => return (⟨halfSize⟩, rest)
  | (none, rest) =>
    throw (.mismatch (.wrongLength 0 "struct Canvas with 1 element") (Json.pastArray rest))

/-- The canvas of a text. -/
def read (text : String) : Except Json.ReadError Canvas :=
  Json.document (Json.readRecord "struct Canvas" readItems readMembers) text

end Identicon.Canvas
