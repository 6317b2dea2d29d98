import Identicon.Decimal.Layout
import Identicon.Json.Value
import Identicon.Text.Quoted

/-!
# Writing JSON

Two written forms of a value. The compact form has no blanks at all. The indented form puts every
item and member on a line of its own, two spaces deeper than its brackets, and a blank after each
colon; empty arrays and objects stay on one line.

In strings the quote, the backslash and the characters below the blank are escaped and everything
else is written as it is. Doubles that no JSON number denotes are written as `null`.
-/

namespace Identicon.Json

/-- The written form of a character inside a string. -/
def escapeChar : Char → List Char
  | '"' => ['\\', '"']
  | '\\' => ['\\', '\\']
  | '\x08' => ['\\', 'b']
  | '\x0c' => ['\\', 'f']
  | '\n' => ['\\', 'n']
  | '\r' => ['\\', 'r']
  | '\t' => ['\\', 't']
  | c =>
    if c.toNat < 0x20 then
      ['\\', 'u', '0', '0', Nat.digitChar (c.toNat / 16), Nat.digitChar (c.toNat % 16)]
    else [c]

/-- The written form of a string. -/
def printString (text : List Char) : List Char :=
  '"' :: text.flatMap escapeChar ++ ['"']

/-- The written form of an integer. -/
def printInteger (n : Int) : List Char :=
  if n < 0 then '-' :: Decimal.digitsOf n.natAbs else Decimal.digitsOf n.natAbs

/-- The written form of a number. -/
def Number.print : Number → List Char
  | .integer n => printInteger n
  | .real z => (Decimal.data z).getD "null".toList

/-- The written form of a truth value. -/
def printBoolean (b : Bool) : List Char :=
  if b then "true".toList else "false".toList

namespace Value

mutual

/-- The written form without blanks. -/
def compact : Value → List Char
  | .null => "null".toList
  | .boolean b => printBoolean b
  | .number n => n.print
  | .string text => printString text
  | .array [] => ['[', ']']
  | .array (v :: vs) => '[' :: compact v ++ compactItems vs ++ [']']
  | .object [] => ['{', '}']
  | .object ((k, v) :: ms) =>
    '{' :: printString k ++ ':' :: compact v ++ compactMembers ms ++ ['}']

/-- The written form of the items of an array after the first. -/
def compactItems : List Value → List Char
  | [] => []
  | v :: vs => ',' :: compact v ++ compactItems vs

/-- The written form of the members of an object after the first. -/
def compactMembers : List (List Char × Value) → List Char
  | [] => []
  | (k, v) :: ms => ',' :: printString k ++ ':' :: compact v ++ compactMembers ms

end

/-- A line break and the indentation of the line after it. -/
def lineBreak (depth : Nat) : List Char :=
  '\n' :: List.replicate (2 * depth) ' '

mutual

/-- The indented form of a value whose brackets stand `depth` levels deep. -/
def indented (depth : Nat) : Value → List Char
  | .null => "null".toList
  | .boolean b => printBoolean b
  | .number n => n.print
  | .string text => printString text
  | .array [] => ['[', ']']
  | .array (v :: vs) =>
    '[' :: lineBreak (depth + 1) ++ indented (depth + 1) v ++ indentedItems (depth + 1) vs ++
      lineBreak depth ++ [']']
  | .object [] => ['{', '}']
  | .object ((k, v) :: ms) =>
    '{' :: lineBreak (depth + 1) ++ printString k ++ ':' :: ' ' :: indented (depth + 1) v ++
      indentedMembers (depth + 1) ms ++ lineBreak depth ++ ['}']

/-- The indented form of the items of an array after the first. -/
def indentedItems (depth : Nat) : List Value → List Char
  | [] => []
  | v :: vs => ',' :: lineBreak depth ++ indented depth v ++ indentedItems depth vs

/-- The indented form of the members of an object after the first. -/
def indentedMembers (depth : Nat) : List (List Char × Value) → List Char
  | [] => []
  | (k, v) :: ms =>
    ',' :: lineBreak depth ++ printString k ++ ':' :: ' ' :: indented depth v ++
      indentedMembers depth ms

end

end Value

end Identicon.Json
