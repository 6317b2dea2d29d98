import Identicon.Json.Printer
import Identicon.Text.ByteLength

/-!
# What can be wrong with a document

Reading a document fails either because its text is not JSON or because a value is not of the kind
the reader asked for. The first kind of failure always has a place in the text. The second has one
when the value was read straight from the text, and none when it was found while taking apart a
value read before.

## Main definitions

* `Mismatch`: a value that is not what the reader asked for.
* `Problem`: everything that can be wrong, with its wording.
* `Spot`, `Position`: a place while reading, and the line and column it stands for.
* `ReadError`: a problem and its position, with the message both make.
-/

namespace Identicon.Json

/-- What a reader found in place of the value it asked for. Of arrays and objects only the kind is
told. -/
inductive Found where
  | null
  | boolean (b : Bool)
  | number (n : Number)
  | string (text : List Char)
  | array
  | object

/-- A value that is not what the reader asked for. -/
inductive Mismatch where
  | wrongType (found : Found) (expected : String)
  | wrongValue (found : Found) (expected : String)
  | wrongLength (length : Nat) (expected : String)
  | unknownField (name : List Char) (known : List String)
  | unknownVariant (name : List Char) (known : List String)
  | missingField (name : String)
  | duplicateField (name : String)

/-- Everything that can be wrong with a document. -/
inductive Problem where
  | endInValue
  | endInArray
  | endInObject
  | endInString
  | expectedValue
  | expectedWord
  | expectedColon
  | expectedItemEnd
  | expectedMemberEnd
  | keyNotString
  | trailingComma
  | trailingText
  | invalidNumber
  | numberOutOfRange
  | invalidEscape
  | controlCharacter
  | loneSurrogate
  | brokenSurrogatePair
  | tooDeep
  | mismatch (m : Mismatch)

/-- What was found, in words. -/
def Found.text : Found → List Char
  | .null => "null".toList
  | .boolean b => "boolean `".toList ++ printBoolean b ++ ['`']
  | .number (.integer n) => "integer `".toList ++ printInteger n ++ ['`']
  | .number (.real z) => "floating point `".toList ++ Number.print (.real z) ++ ['`']
  | .string text => "string ".toList ++ Text.quoted text
  | .array => "sequence".toList
  | .object => "map".toList

/-- The kind of a value, and the value itself when it is a scalar. -/
def Value.found : Value → Found
  | .null => .null
  | .boolean b => .boolean b
  | .number n => .number n
  | .string text => .string text
  | .array _ => .array
  | .object _ => .object

/-- A list of names, each in backquotes. -/
def quotedNames (names : List String) : List Char :=
  (", ".intercalate (names.map fun name => "`" ++ name ++ "`")).toList

/-- The wording of a mismatch. -/
def Mismatch.text : Mismatch → List Char
  | .wrongType found expected =>
    "invalid type: ".toList ++ found.text ++ ", expected ".toList ++ expected.toList
  | .wrongValue found expected =>
    "invalid value: ".toList ++ found.text ++ ", expected ".toList ++ expected.toList
  | .wrongLength length expected =>
    "invalid length ".toList ++ Decimal.digitsOf length ++ ", expected ".toList ++ expected.toList
  | .unknownField name known =>
    "unknown field `".toList ++ name ++ "`, expected one of ".toList ++ quotedNames known
  | .unknownVariant name known =>
    "unknown variant `".toList ++ name ++ "`, expected one of ".toList ++ quotedNames known
  | .missingField name => "missing field `".toList ++ name.toList ++ ['`']
  | .duplicateField name => "duplicate field `".toList ++ name.toList ++ ['`']

/-- The wording of a problem. -/
def Problem.text : Problem → List Char
  | .endInValue => "EOF while parsing a value".toList
  | .endInArray => "EOF while parsing a list".toList
  | .endInObject => "EOF while parsing an object".toList
  | .endInString => "EOF while parsing a string".toList
  | .expectedValue => "expected value".toList
  | .expectedWord => "expected ident".toList
  | .expectedColon => "expected `:`".toList
  | .expectedItemEnd => "expected `,` or `]`".toList
  | .expectedMemberEnd => "expected `,` or `\x7d`".toList
  | .keyNotString => "key must be a string".toList
  | .trailingComma => "trailing comma".toList
  | .trailingText => "trailing characters".toList
  | .invalidNumber => "invalid number".toList
  | .numberOutOfRange => "number out of range".toList
  | .invalidEscape => "invalid escape".toList
  | .controlCharacter =>
    "control character (\\u0000-\\u001F) found while parsing a string".toList
  | .loneSurrogate => "lone leading surrogate in hex escape".toList
  | .brokenSurrogatePair => "unexpected end of hex escape".toList
  | .tooDeep => "recursion limit exceeded".toList
  | .mismatch m => m.text

/-! ## Places in the text -/

/-- A place while reading: the text that is left there, and how many bytes of it count as read. -/
structure Spot where
  rest : List Char
  ahead : Nat

/-- A line, counted from 1, and the number of bytes read on it. -/
structure Position where
  line : Nat
  column : Nat
deriving DecidableEq, Repr

/-- The position after the first `bytes` bytes of a text, which may end inside a character, for a
text that follows the position `here`. -/
def Position.advance (here : Position) (bytes : Nat) : List Char → Position
  | [] => here
  | c :: rest =>
    if bytes = 0 then here
    else if c = '\n' then Position.advance ⟨here.line + 1, 0⟩ (bytes - 1) rest
    else
      Position.advance ⟨here.line, here.column + min bytes c.utf8Size⟩ (bytes - c.utf8Size) rest

/-- The position of a spot in the text that is being read. -/
def Spot.position (text : List Char) (spot : Spot) : Position :=
  let bytes := Text.byteLength text - Text.byteLength spot.rest + spot.ahead
  Position.advance ⟨1, 0⟩ bytes text

/-- A problem met while reading, and the place it is reported at. -/
structure Fault where
  problem : Problem
  spot : Option Spot

/-- A problem reported where `rest` begins. -/
def Fault.here (problem : Problem) (rest : List Char) : Fault :=
  ⟨problem, some ⟨rest, 0⟩⟩

/-- A problem reported one byte after the beginning of `rest`, the byte that is to blame. -/
def Fault.next (problem : Problem) (rest : List Char) : Fault :=
  ⟨problem, some ⟨rest, 1⟩⟩

/-- A value that is not what the reader asked for, reported where `rest` begins. -/
def Fault.mismatch (m : Mismatch) (rest : List Char) : Fault :=
  .here (.mismatch m) rest

/-! ## Messages -/

/-- Why a document cannot be read, and where. -/
structure ReadError where
  problem : Problem
  position : Option Position

/-- The problem, followed by its position. -/
def ReadError.message (e : ReadError) : String :=
  String.ofList <| e.problem.text ++
    match e.position with
    | none => []
    | some p =>
      " at line ".toList ++ Decimal.digitsOf p.line ++ " column ".toList ++
        Decimal.digitsOf p.column

/-- The error that a fault makes in the text being read. -/
def Fault.inText (text : List Char) (f : Fault) : ReadError :=
  ⟨f.problem, f.spot.map (·.position text)⟩

end Identicon.Json
