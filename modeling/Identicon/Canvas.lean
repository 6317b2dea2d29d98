import Identicon.Error

/-!
# Canvas

A square of pixels laid over the square `[-1, 1] × [-1, 1]`. The half size is the number of pixels
per unit of length, so that a side is twice as long. Columns go from left to right; rows go from top
to bottom, against the direction of `y`.
-/

namespace Identicon

/-- A square canvas with `2 * halfSize` pixels to a side. -/
structure Canvas where
  halfSize : UInt32
deriving DecidableEq, Repr

namespace Canvas

/-- The half size of a canvas that nobody chose. -/
def defaultHalfSize : UInt32 := 210

instance : Inhabited Canvas := ⟨⟨defaultHalfSize⟩⟩

/-- The canvas with this half size, which must lie in `1 .. 4096`. -/
def ofHalfSize (halfSize : UInt32) : Except Error Canvas :=
  if halfSize = 0 then .error .zeroHalfSize
  else if Error.greatestHalfSize < halfSize then .error (.largeHalfSize halfSize)
  else .ok ⟨halfSize⟩

/-- The number of pixels along a side. -/
def side (c : Canvas) : UInt32 :=
  c.halfSize * 2

/-- The point of the square that belongs to the pixel in column `px` and row `py`. The sign of `y`
is turned before the division, so that the middle row has `y = -0.0`. -/
def toUnit (c : Canvas) (px py : UInt32) : Float × Float :=
  let h := c.halfSize.toFloat
  ((px.toFloat - h) / h, -(py.toFloat - h) / h)

end Canvas

end Identicon
