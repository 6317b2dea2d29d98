import Identicon.Json.Scalar
import Identicon.Seeds

/-!
# Seeds as documents

Seeds are written as an object with the members `red`, `green` and `blue` in this order. They are
read from an object that has these three, in any order and among others, or from an array of three
numbers.
-/

namespace Identicon.Seeds

open Json (Value Reader Fault)

/-- The written form of seeds. -/
def toJson (seeds : Seeds) : Value :=
  .object [("red".toList, .number (.real seeds.red)), ("green".toList, .number (.real seeds.green)),
    ("blue".toList, .number (.real seeds.blue))]

/-- Reads one member of the object. -/
def readMember (seen : Channels (Option Float)) (key : List Char) :
    Reader (Channels (Option Float)) := fun s => do
  if key = "red".toList then
    let (red, s) ← Json.readField "red" seen.red Json.readDouble s
    return ({ seen with red }, s)
  else if key = "green".toList then
    let (green, s) ← Json.readField "green" seen.green Json.readDouble s
    return ({ seen with green }, s)
  else if key = "blue".toList then
    let (blue, s) ← Json.readField "blue" seen.blue Json.readDouble s
    return ({ seen with blue }, s)
  else
    let s ← Json.readColon s
    return (seen, ← Json.skipValue s)

/-- Reads the rest of an object. -/
def readMembers : Reader Seeds := fun s => do
  let (seen, rest) ← Json.foldMembers readMember ⟨none, none, none⟩ true s
  let red ← Json.required "red" seen.red rest
  let green ← Json.required "green" seen.green rest
  let blue ← Json.required "blue" seen.blue rest
  return (⟨red, green, blue⟩, rest)

/-- Reads the item with this index of an array of three. -/
def readItem (index : Nat) : Reader Float := fun s => do
  match ← Json.readItem? Json.readDouble (index == 0) s with
  | (some z, rest) => return (z, rest)
  | (none, rest) =>
    throw (.mismatch (.wrongLength index "struct Seeds with 3 elements") (Json.pastArray rest))

/-- Reads the items of an array. -/
def readItems : Reader Seeds := fun s => do
  let (red, s) ← readItem 0 s
  let (green, s) ← readItem 1 s
  let (blue, s) ← readItem 2 s
  return (⟨red, green, blue⟩, s)

/-- The seeds of a text. -/
def read (text : String) : Except Json.ReadError Seeds :=
  Json.document (Json.readRecord "struct Seeds" readItems readMembers) text

end Identicon.Seeds
