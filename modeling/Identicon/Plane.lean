import Identicon.Channels
import Identicon.Error

/-!
# Planes and images

A plane holds one byte for each pixel, an image three, and both hold them row by row from the top.
Merging takes three planes of the same size and puts the bytes of each pixel next to each other, in
the order red, green, blue.
-/

namespace Identicon

/-- One byte for each pixel of a rectangle, row by row. -/
structure Plane where
  width : Nat
  height : Nat
  bytes : Array UInt8
deriving DecidableEq, Repr

/-- Three bytes for each pixel of a rectangle, row by row. -/
structure Image where
  width : Nat
  height : Nat
  bytes : Array UInt8
deriving DecidableEq, Repr

/-- The plane with these bytes, if they are enough for its pixels. -/
def Plane.ofBytes? (width height : Nat) (bytes : Array UInt8) : Option Plane :=
  if width * height ≤ bytes.size then some ⟨width, height, bytes⟩ else none

/-- The byte of a pixel, 0 outside the plane. -/
def Plane.get (p : Plane) (px py : Nat) : UInt8 :=
  p.bytes.getD (py * p.width + px) 0

/-- The image with these bytes, if they are enough for its pixels. -/
def Image.ofBytes? (width height : Nat) (bytes : Array UInt8) : Option Image :=
  if 3 * (width * height) ≤ bytes.size then some ⟨width, height, bytes⟩ else none

/-- The place of a channel among the bytes of a pixel. -/
def Channel.index : Channel → Nat
  | .red => 0
  | .green => 1
  | .blue => 2

/-- The byte of a pixel in one channel, 0 outside the image. -/
def Image.get (i : Image) (px py : Nat) (c : Channel) : UInt8 :=
  i.bytes.getD (3 * (py * i.width + px) + c.index) 0

/-- The image whose channels are three planes of the same size. -/
def mergePlanes (planes : Channels Plane) : Except Error Image :=
  let w := planes.red.width
  let h := planes.red.height
  if (planes.green.width, planes.green.height) ≠ (w, h) ∨
      (planes.blue.width, planes.blue.height) ≠ (w, h) then
    .error .planesDiffer
  else
    let bytes := ((planes.red.bytes.zip planes.green.bytes).zip planes.blue.bytes).flatMap
      fun ((r, g), b) => #[r, g, b]
    match Image.ofBytes? w h bytes with
    | some image => .ok image
    | none => .error .incompleteImage

end Identicon
