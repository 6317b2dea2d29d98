import Identicon.Canvas.Document
import Identicon.Options

/-!
# Options as documents

Options are written as an object with all four members. They are read from an object with some of
them, in any order, and no others, or from an array of the first few; what is left out keeps its
default. Options from a text are valid: they are checked once they have been read.
-/

namespace Identicon

open Json (Value Reader Fault)

namespace Policy

/-- The names of the policies in a document. -/
def names : List (String × Policy) :=
  [("clamp", .clamp), ("wrap", .wrap), ("strict", .strict)]

/-- The name of a policy in a document. -/
def name : Policy → List Char
  | .clamp => "clamp".toList
  | .wrap => "wrap".toList
  | .strict => "strict".toList

end Policy

namespace Options

/-- The written form of options. -/
def toJson (o : Options) : Value :=
  .object [("half_size".toList, .number (.integer o.halfSize.toNat)),
    ("policy".toList, .string o.policy.name), ("parallel".toList, .boolean o.parallel),
    ("threads".toList,
      match o.threads with
      | some n => .number (.integer n.toNat)
      | none => .null)]

/-- The fields that have been read. -/
structure Given where
  halfSize : Option UInt32 := none
  policy : Option Policy := none
  parallel : Option Bool := none
  threads : Option (Option UInt64) := none

/-- The options with these fields and the default for each of the others. -/
def Given.toOptions (g : Given) : Options :=
  let unchosen : Options := {}
  { halfSize := g.halfSize.getD unchosen.halfSize
    policy := g.policy.getD unchosen.policy
    parallel := g.parallel.getD unchosen.parallel
    threads := g.threads.getD unchosen.threads }

/-- Reads the number of workers. -/
def readThreads : Reader (Option UInt64) :=
  Json.readOptional fun s => do
    let (n, s) ← Json.readUnsigned "usize" UInt64.size s
    return (n.toUInt64, s)

/-- The names of the fields. -/
def fields : List String :=
  ["half_size", "policy", "parallel", "threads"]

/-- Reads one member of the object. -/
def readMember (g : Given) (key : List Char) : Reader Given := fun s => do
  if key = "half_size".toList then
    let (halfSize, s) ← Json.readField "half_size" g.halfSize Canvas.readHalfSize s
    return ({ g with halfSize }, s)
  else if key = "policy".toList then
    let (policy, s) ← Json.readField "policy" g.policy (Json.readChoice Policy.names) s
    return ({ g with policy }, s)
  else if key = "parallel".toList then
    let (parallel, s) ← Json.readField "parallel" g.parallel Json.readBoolean s
    return ({ g with parallel }, s)
  else if key = "threads".toList then
    let (threads, s) ← Json.readField "threads" g.threads readThreads s
    return ({ g with threads }, s)
  else throw (.mismatch (.unknownField key fields) (Json.pastObject s))

/-- Reads the rest of an object. -/
def readMembers : Reader Options := fun s => do
  let (g, rest) ← Json.foldMembers readMember {} true s
  return (g.toOptions, rest)

/-- Reads the items of an array. -/
def readItems : Reader Options := fun s => do
  let (halfSize, s) ← Json.readItem? Canvas.readHalfSize true s
  let (policy, s) ← Json.readItem? (Json.readChoice Policy.names) halfSize.isNone s
  let (parallel, s) ← Json.readItem? Json.readBoolean halfSize.isNone s
  let (threads, s) ← Json.readItem? readThreads halfSize.isNone s
  return (Given.toOptions { halfSize, policy, parallel, threads }, s)

/-- The options of a text, not yet checked. -/
def parse (text : String) : Except Json.ReadError Options :=
  Json.document (Json.readRecord "struct AvatarOpts" readItems readMembers) text

/-- The options of a text. -/
def read (text : String) : Except Error Options := do
  match parse text with
  | .ok o =>
    o.validate
    return o
  | .error reason => throw (.unreadableOptions reason)

/-- The options of a file, given what came of reading the file as text. -/
def ofFile (path : String) (content : Except FileError String) : Except Error Options :=
  match content with
  | .ok text => read text
  | .error reason => .error (.optionsFile path reason)

end Options

end Identicon
