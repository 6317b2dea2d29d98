import Identicon.Binary64
import Identicon.Error

/-!
# Intensities

From the value of an expression to a byte: `[-1, 1]` is mapped onto `[0, 255]` and rounded. A
policy says what happens to values that end up outside.
-/

namespace Identicon

/-- What happens to an intensity outside `[0, 255]`. -/
inductive Policy where
  /-- The nearer end of the range takes its place. -/
  | clamp
  /-- Its remainder by 256 takes its place. -/
  | wrap
  /-- It is an error. -/
  | strict
deriving DecidableEq, Repr

/-- The intensity of a value, before it becomes a byte. -/
def roundedIntensity (z : Float) : Float :=
  Binary64.roundHalfAway (z * 127.5 + 127.5)

/-- The byte for a value. Under `clamp` a NaN counts as 0; under `wrap` the intensity is first
clamped into the signed 64-bit range. -/
def intensity (policy : Policy) (z : Float) : Except Error UInt8 :=
  let v := roundedIntensity z
  if 0 ≤ v ∧ v ≤ 255 then .ok v.toUInt8
  else
    match policy with
    | .clamp => .ok (if 255 < v then 255 else 0)
    | .wrap => .ok (UInt8.ofNat (Binary64.toInt v % 256).toNat)
    | .strict => .error (.channelOverflow v)

end Identicon
