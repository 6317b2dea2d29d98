import Identicon.Json.Conversion
import Identicon.Json.Fault

/-!
# Reading JSON

Readers take the text that is left and return what they read together with the text after it. They
go from left to right and stop at the first problem.

The reader of a value counts the brackets that may still be opened and refuses the next one when
the count is used up; the levels of a document are what its recursion runs on.

## Main definitions

* `Reader`: a function that reads something from the front of a text.
* `readString`, `readNumber`, `readWord`: the scalars. Numbers are read with a conversion.
* `nextItem`, `nextKey`, `readColon`: the steps between the parts of arrays and objects.
* `foldItems`, `foldMembers`: whole arrays and objects, one part at a time.
* `readValue`: any value with at most so many nested brackets.
* `document`: a whole text.
-/

namespace Identicon.Json

/-- Reads something from the front of a text and returns it with the text that follows. -/
abbrev Reader (α : Type) := List Char → Except Fault (α × List Char)

/-- The characters that may stand between the parts of a document. -/
def isBlank (c : Char) : Bool :=
  c == ' ' || c == '\n' || c == '\t' || c == '\r'

/-- The text from its first character that is not a blank. -/
def skipBlanks (s : List Char) : List Char :=
  s.dropWhile isBlank

/-- A character found past blanks leaves less text than there was. -/
theorem length_lt_of_skipBlanks {c : Char} {s rest : List Char} (h : skipBlanks s = c :: rest) :
    rest.length < s.length := by
  have := (List.dropWhile_suffix isBlank (l := s)).length_le
  rwa [← skipBlanks, h] at this

/-! ## Words -/

/-- Reads the rest of a word such as `null` whose first letter has been read. -/
def readWord : List Char → List Char → Except Fault (List Char)
  | [], s => .ok s
  | _ :: _, [] => .error (.here .endInValue [])
  | w :: ws, c :: s => if c = w then readWord ws s else .error (.next .expectedWord (c :: s))

/-! ## Numbers -/

/-- The greatest exponent that is taken as written. -/
def greatestExponent : Nat := 0x7fffffff

/-- Reads the digits of an exponent on top of the value read so far, until one takes it beyond the
greatest exponent. Tells whether that happened. -/
def readExponentDigits (value : Nat) : List Char → Nat × Bool × List Char
  | [] => (value, false, [])
  | c :: s =>
    if c.isDigit then
      let value := 10 * value + (c.toNat - '0'.toNat)
      if greatestExponent < value then (value, true, s) else readExponentDigits value s
    else (value, false, c :: s)

section Numbers

variable (convert : Conversion)

/-- The double that figures are converted to that have been read up to `rest`. -/
def finish (negative : Bool) (f : Figures) : Reader Number := fun rest =>
  match convert negative f with
  | some z => .ok (.real z, rest)
  | none => .error (.here .numberOutOfRange rest)

/-- Reads an exponent after its letter and gives it to the figures read before. An exponent beyond
the greatest one leaves a zero as it is and turns any other number into zero or, if it is positive,
out of range. -/
def readExponent (negative : Bool) (f : Figures) : Reader Number := fun s =>
  let (below, s) :=
    match s with
    | '+' :: s => (false, s)
    | '-' :: s => (true, s)
    | s => (false, s)
  match s with
  | [] => .error (.here .endInValue [])
  | c :: s' =>
    if c.isDigit then
      match readExponentDigits 0 (c :: s') with
      | (_, true, rest) =>
        if ofDigits (f.whole ++ f.fraction) ≠ 0 ∧ below = false then
          .error (.here .numberOutOfRange rest)
        else .ok (.real (if negative then -0 else 0), rest.dropWhile Char.isDigit)
      | (e, false, rest) =>
        finish convert negative { f with exponent := if below then -(e : Int) else e } rest
    else .error (.next .invalidNumber (c :: s'))

/-- The number without fraction and exponent that these digits denote. Negative zero is a double,
as are the integers outside the 64-bit ranges. -/
def integerNumber (negative : Bool) (whole : List Char) : Reader Number := fun rest =>
  let n := ofDigits whole
  if negative then
    if 1 ≤ n ∧ n ≤ Binary64.intBound then .ok (.integer (-n), rest)
    else finish convert true ⟨whole, [], 0⟩ rest
  else if n < UInt64.size then .ok (.integer n, rest)
  else finish convert false ⟨whole, [], 0⟩ rest

/-- Whether a text goes on with the letter of an exponent, and what follows it. -/
def exponentMark : List Char → Option (List Char)
  | 'e' :: s => some s
  | 'E' :: s => some s
  | _ => none

/-- Reads what may follow the digits before the point: a fraction, an exponent, both or neither. -/
def readNumberTail (negative : Bool) (whole : List Char) : Reader Number := fun s =>
  match s with
  | '.' :: s =>
    let fraction := s.takeWhile Char.isDigit
    let rest := s.dropWhile Char.isDigit
    match fraction, rest with
    | [], [] => .error (.here .endInValue [])
    | [], c :: rest => .error (.next .invalidNumber (c :: rest))
    | fraction, rest =>
      match exponentMark rest with
      | some rest => readExponent convert negative ⟨whole, fraction, 0⟩ rest
      | none => finish convert negative ⟨whole, fraction, 0⟩ rest
  | s =>
    match exponentMark s with
    | some rest => readExponent convert negative ⟨whole, [], 0⟩ rest
    | none => integerNumber convert negative whole s

/-- Reads a number without its sign. A leading zero may not be followed by another digit. -/
def readMagnitude (negative : Bool) : Reader Number := fun s =>
  match s with
  | [] => .error (.here .endInValue [])
  | c :: s' =>
    if c = '0' then
      if (s'.takeWhile Char.isDigit).isEmpty then readNumberTail convert negative ['0'] s'
      else .error (.next .invalidNumber s')
    else if c.isDigit then
      readNumberTail convert negative ((c :: s').takeWhile Char.isDigit)
        ((c :: s').dropWhile Char.isDigit)
    else .error (.next .invalidNumber (c :: s'))

/-- Reads a number from its first character, a digit or a minus. -/
def readNumber : Reader Number := fun s =>
  match s with
  | '-' :: s => readMagnitude convert true s
  | s => readMagnitude convert false s

end Numbers

/-! ## Strings -/

/-- The value of a hexadecimal digit. -/
def hexDigit? (c : Char) : Option Nat :=
  if '0' ≤ c ∧ c ≤ '9' then some (c.toNat - '0'.toNat)
  else if 'a' ≤ c ∧ c ≤ 'f' then some (c.toNat - 'a'.toNat + 10)
  else if 'A' ≤ c ∧ c ≤ 'F' then some (c.toNat - 'A'.toNat + 10)
  else none

/-- The value of the four hexadecimal digits that a text begins with. -/
def hexQuad? : List Char → Option Nat
  | a :: b :: c :: d :: _ => do
    return ((← hexDigit? a) * 16 + (← hexDigit? b)) * 256 + (← hexDigit? c) * 16 + (← hexDigit? d)
  | _ => none

/-- The value of the four hexadecimal digits at the front of a text. The problem with other text is
reported after its first four bytes, or at the end if there are fewer. -/
def hexQuad (s : List Char) : Except Fault Nat :=
  match hexQuad? s with
  | some n => .ok n
  | none =>
    if Text.byteLength s < 4 then .error (.here .endInString [])
    else .error ⟨.invalidEscape, some ⟨s, 4⟩⟩

/-- Whether a code unit opens a surrogate pair. -/
def opensPair (unit : Nat) : Bool :=
  0xD800 ≤ unit && unit ≤ 0xDBFF

/-- Whether a code unit closes a surrogate pair. -/
def closesPair (unit : Nat) : Bool :=
  0xDC00 ≤ unit && unit ≤ 0xDFFF

/-- The code unit of the second half of a surrogate pair, from the text after the first half. -/
def readSecondUnit (s : List Char) : Except Fault Nat :=
  match s with
  | [] => .error (.here .endInString [])
  | '\\' :: s =>
    match s with
    | [] => .error (.here .endInString [])
    | 'u' :: s => do
      let unit ← hexQuad s
      if closesPair unit then return unit else throw (.here .loneSurrogate (s.drop 4))
    | s => .error (.next .brokenSurrogatePair s)
  | s => .error (.next .brokenSurrogatePair s)

/-- The character of an escape by code units, from the text after `\u`, and how many characters of
that text belong to it. A character beyond the first plane takes a pair of escapes. -/
def readUnitEscape (s : List Char) : Except Fault (Char × Nat) := do
  let unit ← hexQuad s
  if closesPair unit then throw (.here .loneSurrogate (s.drop 4))
  else if opensPair unit then
    let second ← readSecondUnit (s.drop 4)
    return (Char.ofNat (0x10000 + (unit - 0xD800) * 0x400 + (second - 0xDC00)), 10)
  else return (Char.ofNat unit, 4)

/-- The character that a letter after a backslash stands for. -/
def simpleEscape? : Char → Option Char
  | '"' => some '"'
  | '\\' => some '\\'
  | '/' => some '/'
  | 'b' => some '\x08'
  | 'f' => some '\x0c'
  | 'n' => some '\n'
  | 'r' => some '\r'
  | 't' => some '\t'
  | _ => none

/-- The character of an escape, from the text after the backslash, and how many characters of that
text belong to it. -/
def readEscape (s : List Char) : Except Fault (Char × Nat) :=
  match s with
  | [] => .error (.here .endInString [])
  | 'u' :: s => do
    let (c, n) ← readUnitEscape s
    return (c, n + 1)
  | c :: s =>
    match simpleEscape? c with
    | some c => .ok (c, 1)
    | none => .error (.next .invalidEscape (c :: s))

/-- Reads a string after its opening quote, up to and including the closing one, where the first
`pending` characters of the text belong to an escape that has been read. -/
def readStringAfter (pending : Nat) : Reader (List Char)
  | [] => .error (.here .endInString [])
  | c :: rest =>
    match pending with
    | n + 1 => readStringAfter n rest
    | 0 =>
      if c = '"' then .ok ([], rest)
      else if c = '\\' then do
        let (c, n) ← readEscape rest
        let (text, rest) ← readStringAfter n rest
        return (c :: text, rest)
      else if c.toNat < 0x20 then .error (.next .controlCharacter (c :: rest))
      else do
        let (text, rest) ← readStringAfter 0 rest
        return (c :: text, rest)

/-- Reads a string after its opening quote, up to and including the closing one. -/
def readString : Reader (List Char) :=
  readStringAfter 0

/-! ## Arrays and objects -/

/-- Goes to the next item of an array: tells whether there is one, and returns the text from the
item, or from the closing bracket if there is none. -/
def nextItem (first : Bool) (s : List Char) : Except Fault (Bool × List Char) :=
  match skipBlanks s with
  | [] => .error (.here .endInArray [])
  | c :: rest =>
    if c = ']' then .ok (false, c :: rest)
    else if first then .ok (true, c :: rest)
    else if c = ',' then
      match skipBlanks rest with
      | [] => .error (.here .endInValue [])
      | d :: rest =>
        if d = ']' then .error (.next .trailingComma (d :: rest)) else .ok (true, d :: rest)
    else .error (.next .expectedItemEnd (c :: rest))

/-- Reads a key with its quotes. -/
def readKey : Reader (List Char)
  | '"' :: s => readString s
  | s => .error (.next .keyNotString s)

/-- Goes to the next member of an object and reads its key. Without a next member, returns the text
from the closing brace. -/
def nextKey (first : Bool) (s : List Char) : Except Fault (Option (List Char) × List Char) :=
  let key (s : List Char) : Except Fault (Option (List Char) × List Char) := do
    let (k, s) ← readKey s
    return (some k, s)
  match skipBlanks s with
  | [] => .error (.here .endInObject [])
  | c :: rest =>
    if c = '}' then .ok (none, c :: rest)
    else if first then key (c :: rest)
    else if c = ',' then
      match skipBlanks rest with
      | [] => .error (.here .endInValue [])
      | d :: rest =>
        if d = '}' then .error (.next .trailingComma (d :: rest)) else key (d :: rest)
    else .error (.next .expectedMemberEnd (c :: rest))

/-- Reads the colon after a key. -/
def readColon (s : List Char) : Except Fault (List Char) :=
  match skipBlanks s with
  | [] => .error (.here .endInObject [])
  | c :: rest => if c = ':' then .ok rest else .error (.next .expectedColon (c :: rest))

/-- Reads at most `limit` items of an array one after the other, each with the result of those
before it, and returns the text from the closing bracket. -/
def foldItemsUpTo {σ : Type} (item : σ → Reader σ) :
    Nat → σ → Bool → List Char → Except Fault (σ × List Char)
  | 0, _, _, s => .error (.here .endInArray s)
  | limit + 1, state, first, s => do
    let (more, rest) ← nextItem first s
    if more then
      let (state, rest) ← item state rest
      foldItemsUpTo item limit state false rest
    else return (state, rest)

/-- Reads the items of an array one after the other, each with the result of those before it, and
returns the text from the closing bracket. An item takes up text, so there are no more of them than
characters. -/
def foldItems {σ : Type} (item : σ → Reader σ) (state : σ) (first : Bool) (s : List Char) :
    Except Fault (σ × List Char) :=
  foldItemsUpTo item (s.length + 1) state first s

/-- Reads at most `limit` members of an object one after the other, each from the text after its key
and with the result of those before it, and returns the text from the closing brace. -/
def foldMembersUpTo {σ : Type} (member : σ → List Char → Reader σ) :
    Nat → σ → Bool → List Char → Except Fault (σ × List Char)
  | 0, _, _, s => .error (.here .endInObject s)
  | limit + 1, state, first, s => do
    match ← nextKey first s with
    | (none, rest) => return (state, rest)
    | (some key, rest) =>
      let (state, rest) ← member state key rest
      foldMembersUpTo member limit state false rest

/-- Reads the members of an object one after the other, each from the text after its key and with
the result of those before it, and returns the text from the closing brace. A member takes up text,
so there are no more of them than characters. -/
def foldMembers {σ : Type} (member : σ → List Char → Reader σ) (state : σ) (first : Bool)
    (s : List Char) : Except Fault (σ × List Char) :=
  foldMembersUpTo member (s.length + 1) state first s

/-- Reads the closing bracket of an array of which no more items are wanted. -/
def closeArray (s : List Char) : Except Fault (List Char) :=
  match skipBlanks s with
  | [] => .error (.here .endInArray [])
  | c :: rest =>
    if c = ']' then .ok rest
    else if c = ',' then
      match skipBlanks rest with
      | ']' :: rest => .error (.next .trailingComma (']' :: rest))
      | rest => .error (.next .trailingText rest)
    else .error (.next .trailingText (c :: rest))

/-- Where a problem with an array as a whole is reported: after the closing bracket if that comes
next. -/
def pastArray (s : List Char) : List Char :=
  match skipBlanks s with
  | ']' :: rest => rest
  | ',' :: rest => skipBlanks rest
  | rest => rest

/-- Where a problem with an object as a whole is reported: after the closing brace if that comes
next. -/
def pastObject (s : List Char) : List Char :=
  match skipBlanks s with
  | '}' :: rest => rest
  | rest => rest

/-! ## Values -/

/-- Reads an item of an array and adds it to those before it. -/
def addItem (readPart : Reader Value) (items : Array Value) : Reader (Array Value) := fun s => do
  let (v, s) ← readPart s
  return (items.push v, s)

/-- Reads the value of a member of an object from the text after its key and adds the member to
those before it. -/
def addMember (readPart : Reader Value) (members : Array (List Char × Value)) (key : List Char) :
    Reader (Array (List Char × Value)) := fun s => do
  let (v, s) ← readPart (← readColon s)
  return (members.push (key, v), s)

/-- Reads a value, with the given reader for the parts of arrays and objects. Without one, an array
or object is too deep. -/
def readValueWith (convert : Conversion) (nested : Option (Reader Value)) : Reader Value := fun s =>
  match skipBlanks s with
  | [] => .error (.here .endInValue [])
  | c :: rest =>
    if c = 'n' then do return (.null, ← readWord "ull".toList rest)
    else if c = 't' then do return (.boolean true, ← readWord "rue".toList rest)
    else if c = 'f' then do return (.boolean false, ← readWord "alse".toList rest)
    else if c = '-' ∨ c.isDigit then do
      let (n, rest) ← readNumber convert (c :: rest)
      return (.number n, rest)
    else if c = '"' then do
      let (text, rest) ← readString rest
      return (.string text, rest)
    else if c = '[' then
      match nested with
      | none => .error (.next .tooDeep (c :: rest))
      | some readPart => do
        let (items, rest) ← foldItems (addItem readPart) #[] true rest
        return (.array items.toList, rest.drop 1)
    else if c = '{' then
      match nested with
      | none => .error (.next .tooDeep (c :: rest))
      | some readPart => do
        let (members, rest) ← foldMembers (addMember readPart) #[] true rest
        return (.object members.toList, rest.drop 1)
    else .error (.next .expectedValue (c :: rest))

/-- Reads a value in which brackets are nested at most `depth` deep. -/
def readValue (convert : Conversion) : Nat → Reader Value
  | 0 => readValueWith convert none
  | depth + 1 => readValueWith convert (some (readValue convert depth))

/-- The greatest depth to which brackets may be nested in a document. -/
def greatestDepth : Nat := 127

/-! ## Documents -/

/-- Reads a whole text: what the reader reads and nothing after it but blanks. -/
def document {α : Type} (read : Reader α) (text : String) : Except ReadError α :=
  let s := text.toList
  match read s with
  | .error f => .error (f.inText s)
  | .ok (a, rest) =>
    match skipBlanks rest with
    | [] => .ok a
    | c :: rest => .error ((Fault.next .trailingText (c :: rest)).inText s)

end Identicon.Json
