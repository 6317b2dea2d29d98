import Identicon.Canvas
import Identicon.Expr.Basic
import Identicon.Intensity
import Identicon.Plane
import Identicon.Raster.Interleaving

/-!
# Rasterizing

The plane that an expression makes on a canvas: the intensity of its value at the point of each
pixel, for one row after the other or with the rows in progress at the same time.
-/

namespace Identicon

/-- How the rows of a plane are filled. -/
inductive Execution where
  /-- One after the other, from the top. -/
  | sequential
  /-- All at the same time, in this order of steps. -/
  | parallel (order : List Nat)

/-- The byte of the pixel in column `px` and row `py`. -/
def Canvas.pixel (c : Canvas) (trig : Trig) (e : Expr) (policy : Policy) (px py : Nat) :
    Except Error UInt8 :=
  let (x, y) := c.toUnit px.toUInt32 py.toUInt32
  intensity policy (e.evaluate trig x y)

/-- The pixels of a square row by row. Fails with the first pixel that does. -/
def fillRowByRow {ε : Type} (side : Nat) (pixel : Nat → Nat → Except ε UInt8) :
    Except ε (Array UInt8) :=
  (Array.range (side * side)).mapM fun i => pixel (i % side) (i / side)

/-- The pixels of a square, filled in one of the two ways. -/
def Execution.fill (execution : Execution) (side : Nat)
    (pixel : Nat → Nat → Except Error UInt8) : Except Error (Array UInt8) :=
  match execution with
  | .sequential => fillRowByRow side pixel
  | .parallel order => fillInOrder side pixel order

/-- The plane of an expression on a canvas. A canvas without pixels has no rows to deal out. -/
def rasterizeOn (trig : Trig) (e : Expr) (c : Canvas) (policy : Policy) (execution : Execution) :
    Except Failure Plane := do
  let side := c.side.toNat
  if side = 0 then throw .emptyRows
  let bytes ← execution.fill side (c.pixel trig e policy)
  match Plane.ofBytes? side side bytes with
  | some plane => return plane
  | none => throw (.error .incompletePlane)

/-- The plane of an expression on the canvas of a half size, row by row and with intensities clamped
into the range of bytes. -/
def rasterize (trig : Trig) (e : Expr) (halfSize : UInt32) : Except Failure Plane := do
  rasterizeOn trig e (← Canvas.ofHalfSize halfSize) .clamp .sequential

end Identicon
