import Identicon.Plane

/-!
# PNG files

The bytes of an image as a PNG file: a signature and three chunks, each with its length and a
checksum. The pixels are stored without compression, every row behind the number of its filter,
which is none.
-/

namespace Identicon.Png

/-- A number as four bytes, the most significant first. -/
def bigEndian (n : Nat) : ByteArray :=
  ⟨#[(n >>> 24).toUInt8, (n >>> 16).toUInt8, (n >>> 8).toUInt8, n.toUInt8]⟩

/-- A number as two bytes, the least significant first. -/
def littleEndian (n : Nat) : ByteArray :=
  ⟨#[n.toUInt8, (n >>> 8).toUInt8]⟩

/-- One bit of the division that makes the checksum of a chunk. -/
def crcBit (crc : UInt32) : UInt32 :=
  if crc &&& 1 = 1 then (crc >>> 1) ^^^ 0xedb88320 else crc >>> 1

/-- The checksum of a chunk. -/
def crc (bytes : ByteArray) : UInt32 :=
  bytes.foldl (fun crc b => Nat.repeat crcBit 8 (crc ^^^ b.toUInt32)) 0xffffffff ^^^ 0xffffffff

/-- The checksum of the stored pixels: two sums modulo the greatest prime below `2 ^ 16`. -/
def adler (bytes : ByteArray) : Nat :=
  let (a, b) := bytes.foldl (fun (a, b) x =>
    let a := (a + x.toNat) % 65521
    (a, (b + a) % 65521)) (1, 0)
  (b <<< 16) + a

/-- A chunk of the file. -/
def chunk (kind : String) (content : ByteArray) : ByteArray :=
  let body := kind.toUTF8 ++ content
  bigEndian content.size ++ body ++ bigEndian (crc body).toNat

/-- The greatest number of bytes in a stored block. -/
def blockSize : Nat := 65535

/-- Bytes as a stream of stored blocks, of which there is at least one. -/
def stored (bytes : ByteArray) : ByteArray :=
  let blocks := max 1 ((bytes.size + (blockSize - 1)) / blockSize)
  let body := (List.range blocks).foldl (fun out i =>
    let block := bytes.extract (i * blockSize) ((i + 1) * blockSize)
    out ++ ⟨#[if i + 1 = blocks then 1 else 0]⟩ ++ littleEndian block.size ++
      littleEndian (blockSize - block.size) ++ block) ⟨#[0x78, 0x01]⟩
  body ++ bigEndian (adler bytes)

/-- The rows of an image, each behind the number of its filter. -/
def filtered (i : Image) : ByteArray :=
  let pixels : ByteArray := ⟨i.bytes⟩
  (List.range i.height).foldl (fun out y =>
    out.push 0 ++ pixels.extract (y * (3 * i.width)) ((y + 1) * (3 * i.width))) .empty

/-- The bytes of the file: eight bits to a channel, three channels to a pixel. -/
def encode (i : Image) : ByteArray :=
  ⟨#[0x89, 0x50, 0x4e, 0x47, 0x0d, 0x0a, 0x1a, 0x0a]⟩ ++
    chunk "IHDR" (bigEndian i.width ++ bigEndian i.height ++ ⟨#[8, 2, 0, 0, 0]⟩) ++
    chunk "IDAT" (stored (filtered i)) ++ chunk "IEND" .empty

end Identicon.Png
