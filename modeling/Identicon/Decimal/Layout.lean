import Identicon.Binary64
import Identicon.Decimal.Shortest

/-!
# Writing doubles

Two written forms of a double share its shortest digits and differ in layout.

* `Decimal.plain` never uses an exponent and gives a whole number no fraction: the form of a value
  inside a message.
* `Decimal.data` keeps a fraction on whole numbers, so that reading it gives a double again, and
  turns to an exponent outside `10 ^ -5 ≤ |z| < 10 ^ 16`: the form of a value inside a document.
-/

namespace Identicon.Decimal

/-- The decimal digits of a natural number, the most significant first. -/
def digitsOf (n : Nat) : List Char :=
  Nat.toDigits 10 n

/-- The number of the form `d.ddd · 10 ^ e`: its exponent `e`. -/
def leadingExponent (d : Decimal) : Int :=
  (digitsOf d.digits).length - 1 + d.power

/-- Digits with a point so that the last `places` digits come after it, and at least one digit
before it. -/
def pointed (digits : List Char) (places : Nat) : List Char :=
  let padded := List.replicate (places + 1 - digits.length) '0' ++ digits
  padded.take (padded.length - places) ++ '.' :: padded.drop (padded.length - places)

/-- The decimal without an exponent. A whole number is followed by `whole`. -/
def positional (whole : List Char) (d : Decimal) : List Char :=
  let digits := digitsOf d.digits
  if 0 ≤ d.power then digits ++ List.replicate d.power.toNat '0' ++ whole
  else pointed digits (-d.power).toNat

/-- The decimal as `d.ddde+x` or `d.ddde-x`, without a point when there is one digit only. -/
def scientific (d : Decimal) : List Char :=
  let digits := digitsOf d.digits
  let e := d.leadingExponent
  let mantissa := if digits.length = 1 then digits else pointed digits (digits.length - 1)
  mantissa ++ 'e' :: (if e < 0 then '-' else '+') :: digitsOf e.natAbs

/-- A leading minus for the sign bit. -/
def signed (z : Float) (magnitude : List Char) : List Char :=
  if Binary64.isSigned z then '-' :: magnitude else magnitude

/-- The shortest decimal of a finite double, 0 for a zero. -/
def ofFinite (z : Float) : Decimal :=
  if z == 0 then ⟨0, 0⟩ else shortest (.ofBits z.toBits)

/-- The form inside a message: shortest digits, no exponent, no fraction on whole numbers. -/
def plain (z : Float) : List Char :=
  if z.isNaN then "NaN".toList
  else signed z (if z.isInf then "inf".toList else positional [] (ofFinite z))

/-- The form inside a document, which has none for infinities and NaN: shortest digits, positional
when the leading exponent lies in `-5 .. 15`, and `.0` on whole numbers there. -/
def data (z : Float) : Option (List Char) :=
  if z.isFinite then
    let d := ofFinite z
    let e := d.leadingExponent
    some (signed z (if -5 ≤ e ∧ e ≤ 15 then positional ".0".toList d else scientific d))
  else none

end Identicon.Decimal
