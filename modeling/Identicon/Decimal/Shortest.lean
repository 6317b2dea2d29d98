/-!
# The shortest decimal of a double

A finite double other than zero stands for every real number that rounds to it, an interval around
its own value. Among the decimals `d · 10 ^ k` inside that interval the one with the greatest `k`
has the fewest digits, and reading it gives the double back. When two neighbours on that grid both
lie inside, the nearer one is taken, and the even one if they are equally near.

All of it is exact arithmetic on natural numbers: both the interval and the grid are scaled to
quarters of the last binary place over a common denominator.

## Main definitions

* `Magnitude`: `significand · 2 ^ exponent`, the value of a double without its sign.
* `Magnitude.onGrid`: the multiple of `10 ^ k` that stands for a magnitude, if there is one.
* `Decimal.shortest`: the decimal of the coarsest grid that has one.
-/

namespace Identicon

/-- The nonnegative number `digits · 10 ^ power`. -/
structure Decimal where
  digits : Nat
  power : Int
deriving DecidableEq, Repr, Inhabited

/-- The nonnegative number `significand · 2 ^ exponent`. -/
structure Magnitude where
  significand : Nat
  exponent : Int
deriving DecidableEq, Repr

namespace Magnitude

/-- The exponent of the smallest doubles. -/
def leastExponent : Int := -1074

/-- `2 ^ 52`: the value of the leading bit of a significand that has all its bits. -/
def leadingBit : Nat := 0x10000000000000

/-- The magnitude of the finite double with this bit pattern: 52 bits of fraction below 11 bits of
biased exponent, whose value 0 marks numbers without the implicit leading bit. -/
def ofBits (bits : UInt64) : Magnitude :=
  let fraction : Nat := bits.toNat % leadingBit
  let biased : Nat := bits.toNat / leadingBit % 0x800
  if biased = 0 then ⟨fraction, leastExponent⟩ else ⟨leadingBit + fraction, biased - 1075⟩

/-- Quarters of the last place from the magnitude down to the border with the double below. Just
above a power of two the doubles below lie twice as close. -/
def quartersBelow (m : Magnitude) : Nat :=
  if m.significand = leadingBit ∧ leastExponent < m.exponent then 1 else 2

/-- The multiple of `10 ^ k` that rounds to the magnitude and is nearest to it, as a count of
`10 ^ k`. The ends of the interval round to it exactly when its significand is even. -/
def onGrid (m : Magnitude) (k : Int) : Option Nat :=
  let quarter := m.exponent - 2
  let scale := Nat.pow 2 quarter.toNat * Nat.pow 10 (-k).toNat
  let unit := Nat.pow 2 (-quarter).toNat * Nat.pow 10 k.toNat
  let value := 4 * m.significand * scale
  let low := (4 * m.significand - m.quartersBelow) * scale
  let high := (4 * m.significand + 2) * scale
  let inside (d : Nat) : Bool :=
    if m.significand % 2 = 0 then low ≤ d * unit && d * unit ≤ high
    else low < d * unit && d * unit < high
  let below := value / unit
  let above := below + 1
  match inside below, inside above with
  | true, true =>
    let middle := (2 * below + 1) * unit
    if 2 * value < middle then some below
    else if middle < 2 * value then some above
    else if below % 2 = 0 then some below else some above
  | true, false => some below
  | false, true => some above
  | false, false => none

end Magnitude

namespace Decimal

/-- The powers of ten in question, coarsest first: from the decimal exponent of the greatest
double down to that of the least. -/
def grids : List Int :=
  (List.range 633).map fun (i : Nat) => 308 - (i : Int)

/-- The shortest decimal that reads back as the magnitude, for a nonzero one. -/
def shortest (m : Magnitude) : Decimal :=
  (grids.findSome? fun k => (m.onGrid k).map (⟨·, k⟩)).getD ⟨0, 0⟩

end Decimal

end Identicon
