/-!
# Whole numbers and doubles

Moving between double-precision numbers and whole numbers: dropping a fraction, rounding to the
nearest whole number, clamping into the signed 64-bit range, and converting back. Everything is
built from operations whose value is determined bit by bit, so each rule below can be computed
with as well as run.

## Main definitions

* `trunc`: the whole number next to `z` on the side of zero.
* `roundHalfAway`: the nearest whole number, a tie going away from zero.
* `toInt`: `trunc` as an integer, clamped into `[-2 ^ 63, 2 ^ 63 - 1]`; a NaN counts as 0.
* `ofInt`: the double nearest to an integer of magnitude below `2 ^ 64`.
-/

namespace Identicon.Binary64

/-- The double nearest to the circle constant. -/
def pi : Float := Float.ofBits 0x400921FB54442D18

/-- `2 ^ 52`: a double of this magnitude or more has no fraction. -/
def wholeFrom : Float := Float.ofBits 0x4330000000000000

/-- The sign bit; it tells `-0.0` from `0.0`. -/
def isSigned (z : Float) : Bool :=
  z.toBits >>> 63 == 1

/-- `magnitude` with the sign of `z`, for a `magnitude` without sign. -/
def withSignOf (z magnitude : Float) : Float :=
  if isSigned z then -magnitude else magnitude

/-- Drops the fraction of `z` and keeps its sign, so that `-0.5` becomes `-0.0`. Infinities and
NaN stay as they are. -/
def trunc (z : Float) : Float :=
  if z.abs < wholeFrom then withSignOf z z.abs.toUInt64.toFloat else z

/-- The whole number nearest to `z`; a tie goes away from zero and the sign of `z` is kept.
Below `2 ^ 52` the fraction `z.abs - trunc z.abs` is computed without rounding. -/
def roundHalfAway (z : Float) : Float :=
  if z.abs < wholeFrom then
    let floor := z.abs.toUInt64.toFloat
    withSignOf z (if z.abs - floor < 0.5 then floor else floor + 1)
  else z

/-- `2 ^ 63`: the signed 64-bit range begins at its negative and ends below it. -/
def intBound : Nat := 0x8000000000000000

/-- Drops the fraction of `z` and clamps what is left into the signed 64-bit range. A NaN
counts as 0. -/
def toInt (z : Float) : Int :=
  let magnitude := z.abs.toUInt64.toNat
  if isSigned z then -(min magnitude intBound : Nat) else (min magnitude (intBound - 1) : Nat)

/-- The double nearest to `n`, for `n` of magnitude below `2 ^ 64`. -/
def ofInt (n : Int) : Float :=
  if n < 0 then -n.natAbs.toUInt64.toFloat else n.natAbs.toUInt64.toFloat

end Identicon.Binary64
