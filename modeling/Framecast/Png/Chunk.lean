import Framecast.Bytes.BigEndian
import Framecast.Bytes.Crc32

/-!
# Chunks

A PNG file is a signature and a sequence of chunks. A chunk is the length of its body, its kind in four letters, its
body and a check of kind and body. A kind whose first letter is small is ancillary: whoever does not know it can pass
over it.
-/

namespace Framecast.Png

/-- A part of a file. -/
structure Chunk where
  kind : String
  body : ByteArray
  /-- The check is that of the kind and the body. -/
  sound : Bool

/-- The bytes in front of the first chunk. -/
def signature : List UInt8 := [0x89, 0x50, 0x4E, 0x47, 0x0D, 0x0A, 0x1A, 0x0A]

/-- The bytes start with the signature. -/
def hasSignature (b : ByteArray) : Bool := Buffer.toList (b.extract 0 8) == signature

namespace Chunk

/-- The kind in the four bytes from `start`. -/
def kindAt (b : ByteArray) (start : Nat) : String :=
  String.ofList ((List.range 4).map fun i => Char.ofNat (Buffer.byteAt b (start + i)).toNat)

/-- The length of the body and the kind of the chunk at `start`, if they are there. -/
def front? (b : ByteArray) (start : Nat) : Option (Nat × String) :=
  if start + 8 ≤ b.size then some (BigEndian.load b 4 start, kindAt b (start + 4)) else none

/-- The chunk at `start`, if it is there to its end. -/
def at? (b : ByteArray) (start : Nat) : Option Chunk := do
  let (length, kind) ← front? b start
  if start + 12 + length ≤ b.size then
    return {
      kind
      body := b.extract (start + 8) (start + 8 + length)
      sound := (Crc32.ofBytes (b.extract (start + 4) (start + 8 + length))).toNat
        == BigEndian.load b 4 (start + 8 + length) }
  else none

/-- The number of bytes of the chunk in the file. -/
def size (c : Chunk) : Nat := c.body.size + 12

/-- The first letter of the kind is a capital: its fifth bit is zero. -/
def critical (c : Chunk) : Bool := (c.kind.toList.head?.map fun letter => letter.toNat / 32 % 2 == 0).getD true

end Chunk

end Framecast.Png
