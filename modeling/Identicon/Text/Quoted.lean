import Identicon.Text.GraphemeExtend
import Identicon.Text.Unprintable

/-!
# Quoted text

The form in which a message shows a piece of text it complains about: between double quotes, with
every character that would not show, or would merge with its neighbour, as an escape.
-/

namespace Identicon.Text

/-- The lowercase hexadecimal digits of a number, the most significant first. -/
def hexDigits (n : Nat) : List Char :=
  Nat.toDigits 16 n

/-- One character of quoted text. Combining marks are escaped as they would attach themselves to
the quote or letter before them. -/
def quoteChar : Char → List Char
  | '\x00' => ['\\', '0']
  | '\t' => ['\\', 't']
  | '\n' => ['\\', 'n']
  | '\r' => ['\\', 'r']
  | '"' => ['\\', '"']
  | '\\' => ['\\', '\\']
  | c =>
    if graphemeExtend.contains c || unprintable.contains c then
      ['\\', 'u', '{'] ++ hexDigits c.toNat ++ ['}']
    else [c]

/-- A text between double quotes, escaped. -/
def quoted (text : List Char) : List Char :=
  '"' :: text.flatMap quoteChar ++ ['"']

end Identicon.Text
