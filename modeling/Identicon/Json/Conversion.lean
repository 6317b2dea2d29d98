import Identicon.Decimal.Shortest

/-!
# Doubles from figures

A number of a document becomes a double in a few steps, none of which needs more than a word of the
machine. As many of its digits as fit into 64 bits make a whole number, which is rounded to a double
and then multiplied or divided by a power of ten that is a rounded double itself. This is fast, but
the result need not be the double nearest to the number that was written.

Readers of numbers take the conversion as an argument.

## Main definitions

* `Figures`: a number as it is written, without its sign.
* `Conversion`: what makes a double of figures.
* `Figures.cut`: the decimal of the digits that fit into 64 bits.
* `scale`: a double times a power of ten.
* `Conversion.scaled`: the conversion that documents are read with.
-/

namespace Identicon

namespace Json

/-- The number a row of digits denotes. -/
def ofDigits (digits : List Char) : Nat :=
  digits.foldl (fun n d => 10 * n + (d.toNat - '0'.toNat)) 0

/-- A number as it is written, without its sign: the digits before the point, those after it, and
the exponent. -/
structure Figures where
  whole : List Char
  fraction : List Char
  exponent : Int

/-- Makes a double of the sign and the figures of a number, or nothing if the number is out of
range. -/
abbrev Conversion := Bool → Figures → Option Float

/-- Takes digits on top of a number as long as the result fits into 64 bits. Returns the number and
how many digits are left. -/
def takeDigits (n : Nat) : List Char → Nat × Nat
  | [] => (n, 0)
  | c :: s =>
    let n' := 10 * n + (c.toNat - '0'.toNat)
    if n' < UInt64.size then takeDigits n' s else (n, s.length + 1)

/-- The decimal of the digits that fit into 64 bits. Each digit before the point that does not fit
counts as a power of ten; digits after the point that do not fit are dropped. -/
def Figures.cut (f : Figures) : Decimal :=
  let whole := takeDigits 0 f.whole
  let all := takeDigits whole.1 f.fraction
  ⟨all.1, f.exponent + whole.2 - (f.fraction.length - all.2 : Nat)⟩

end Json

namespace Decimal

/-- The greatest exponent in the table of powers of ten. -/
def greatestPower : Nat := 308

/-- A power of ten as a double. -/
def powerOfTen (n : Nat) : Float :=
  Float.ofScientific 1 false n

/-- A double times a power of ten, or nothing if that is beyond the greatest double. A power below
those of the table is reached in steps. -/
def scale (z : Float) (e : Int) : Option Float :=
  if e.natAbs ≤ greatestPower then
    if 0 ≤ e then
      let product := z * powerOfTen e.natAbs
      if product.isInf then none else some product
    else some (z / powerOfTen e.natAbs)
  else if z == 0 then some z
  else if 0 ≤ e then none
  else scale (z / powerOfTen greatestPower) (e + greatestPower)
termination_by e.natAbs
decreasing_by
  simp only [greatestPower] at *
  omega

/-- The double that a decimal of 64 bits is turned into, with this sign: its digits as a double,
scaled by its power of ten. -/
def scaled? (negative : Bool) (d : Decimal) : Option Float :=
  (scale d.digits.toUInt64.toFloat d.power).map fun z => if negative then -z else z

end Decimal

/-- The conversion that documents are read with. -/
def Json.Conversion.scaled : Conversion := fun negative f =>
  f.cut.scaled? negative

end Identicon
