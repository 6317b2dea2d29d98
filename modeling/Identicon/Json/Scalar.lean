import Identicon.Json.Skip

/-!
# Reading what is expected

Readers that ask for a value of one kind. A value of another kind is a mismatch: a scalar is read
to its end first, so that it can be told, while an array or object is left where it begins.

## Main definitions

* `wrongType`: the fault that a value of another kind makes.
* `readUnsigned`, `readDouble`, `readBoolean`, `readNull`: one kind of scalar each.
* `readOptional`: `null` for no value.
* `readName`: a string out of a list of names.
* `readRecord`: a value with named fields, written as an object or as the array of its fields.
-/

namespace Identicon.Json

/-- The fault made by the value that a nonempty text begins with, where `expected` was asked for. -/
def wrongType (expected : String) (s : List Char) : Fault :=
  let scalar (read : Except Fault (Found × List Char)) : Fault :=
    match read with
    | .ok (found, rest) => .mismatch (.wrongType found expected) rest
    | .error f => f
  match s with
  | [] => .here .expectedValue []
  | c :: rest =>
    if c = 'n' then scalar (do return (.null, ← readWord "ull".toList rest))
    else if c = 't' then scalar (do return (.boolean true, ← readWord "rue".toList rest))
    else if c = 'f' then scalar (do return (.boolean false, ← readWord "alse".toList rest))
    else if c = '-' ∨ c.isDigit then
      scalar (do
        let (n, rest) ← readNumber .scaled (c :: rest)
        return (.number n, rest))
    else if c = '"' then
      scalar (do
        let (text, rest) ← readString rest
        return (.string text, rest))
    else if c = '[' then .mismatch (.wrongType .array expected) (c :: rest)
    else if c = '{' then .mismatch (.wrongType .object expected) (c :: rest)
    else .next .expectedValue (c :: rest)

/-- Reads a number and hands it to `accept` together with the text after it. -/
def readNumberAs {α : Type} (expected : String) (accept : Number → Except Mismatch α) :
    Reader α := fun s =>
  match skipBlanks s with
  | [] => .error (.here .endInValue [])
  | c :: rest =>
    if c = '-' ∨ c.isDigit then do
      let (n, rest) ← readNumber .scaled (c :: rest)
      match accept n with
      | .ok a => return (a, rest)
      | .error m => throw (.mismatch m rest)
    else .error (wrongType expected (c :: rest))

/-- Reads a nonnegative integer below `bound`. -/
def readUnsigned (expected : String) (bound : Nat) : Reader Nat :=
  readNumberAs expected fun
    | .integer n =>
      if 0 ≤ n ∧ n < bound then .ok n.toNat
      else .error (.wrongValue (.number (.integer n)) expected)
    | .real z => .error (.wrongType (.number (.real z)) expected)

/-- Reads a double. An integer stands for the double nearest to it. -/
def readDouble : Reader Float :=
  readNumberAs "f64" fun
    | .integer n => .ok (Binary64.ofInt n)
    | .real z => .ok z

/-- Reads a truth value. -/
def readBoolean : Reader Bool := fun s =>
  match skipBlanks s with
  | [] => .error (.here .endInValue [])
  | c :: rest =>
    if c = 't' then do return (true, ← readWord "rue".toList rest)
    else if c = 'f' then do return (false, ← readWord "alse".toList rest)
    else .error (wrongType "a boolean" (c :: rest))

/-- Reads `null`. -/
def readNull : Reader Unit := fun s =>
  match skipBlanks s with
  | [] => .error (.here .endInValue [])
  | c :: rest =>
    if c = 'n' then do return ((), ← readWord "ull".toList rest)
    else .error (wrongType "unit" (c :: rest))

/-- Reads `null` as no value, and anything else with the given reader. -/
def readOptional {α : Type} (read : Reader α) : Reader (Option α) := fun s =>
  match skipBlanks s with
  | 'n' :: rest => do return (none, ← readWord "ull".toList rest)
  | s => do
    let (a, rest) ← read s
    return (some a, rest)

/-- The meaning of a name that should be one of those in `names`. -/
def ofName {α : Type} (names : List (String × α)) (name : List Char) : Except Mismatch α :=
  match names.find? (·.1.toList == name) with
  | some (_, a) => .ok a
  | none => .error (.unknownVariant name (names.map (·.1)))

/-- Reads a string out of a list of names. -/
def readName {α : Type} (names : List (String × α)) : Reader α := fun s =>
  match skipBlanks s with
  | [] => .error (.here .endInValue [])
  | c :: rest =>
    if c = '"' then do
      let (name, rest) ← readString rest
      match ofName names name with
      | .ok a => return (a, rest)
      | .error m => throw (.mismatch m rest)
    else .error (wrongType "variant identifier" (c :: rest))

/-- Reads a name on its own, or as the only key of an object whose value is `null`. -/
def readChoice {α : Type} (names : List (String × α)) : Reader α := fun s =>
  match skipBlanks s with
  | [] => .error (.here .endInValue [])
  | c :: rest =>
    if c = '"' then readName names (c :: rest)
    else if c = '{' then do
      let (a, rest) ← readName names rest
      let ((), rest) ← readNull (← readColon rest)
      match skipBlanks rest with
      | [] => throw (.here .endInObject [])
      | c :: rest =>
        if c = '}' then return (a, rest) else throw (.here .expectedValue (c :: rest))
    else .error (.next .expectedValue (c :: rest))

/-! ## Records -/

/-- Reads the next item of an array, if there is one. -/
def readItem? {α : Type} (read : Reader α) (first : Bool) : Reader (Option α) := fun s => do
  let (more, s) ← nextItem first s
  if more then
    let (a, s) ← read s
    return (some a, s)
  else return (none, s)

/-- Reads the value of the field `name` from the text after its key. A field may occur only once. -/
def readField {α : Type} (name : String) (seen : Option α) (read : Reader α) :
    Reader (Option α) := fun s =>
  match seen with
  | some _ => .error (.mismatch (.duplicateField name) (pastObject s))
  | none => do
    let (a, s) ← read (← readColon s)
    return (some a, s)

/-- The value of a field that has to occur in an object, from the text where the object ends. -/
def required {α : Type} (name : String) (seen : Option α) (s : List Char) : Except Fault α :=
  match seen with
  | some a => .ok a
  | none => .error (.mismatch (.missingField name) (pastObject s))

/-- Reads a value with named fields, with one reader for the text after an opening bracket up to the
closing one, and one for the text after an opening brace up to the closing one. -/
def readRecord {α : Type} (expected : String) (ofArray ofObject : Reader α) : Reader α := fun s =>
  match skipBlanks s with
  | [] => .error (.here .endInValue [])
  | c :: rest =>
    if c = '[' then do
      let (a, rest) ← ofArray rest
      return (a, ← closeArray rest)
    else if c = '{' then do
      let (a, rest) ← ofObject rest
      return (a, rest.drop 1)
    else .error (wrongType expected (c :: rest))

end Identicon.Json
