/-!
# Cyclic redundancy checks

The check of 32 bits that guards the chunks of a PNG file, one bit at a time.
-/

namespace Framecast.Crc32

/-- One bit of the division by the polynomial. -/
def shift (c : UInt32) : UInt32 := if c &&& 1 = 1 then (c >>> 1) ^^^ 0xEDB88320 else c >>> 1

/-- The remainder after another byte. -/
def update (c : UInt32) (b : UInt8) : UInt32 :=
  shift (shift (shift (shift (shift (shift (shift (shift (c ^^^ b.toUInt32))))))))

/-- The check of bytes. -/
def ofBytes (b : ByteArray) : UInt32 := b.foldl update 0xFFFFFFFF ^^^ 0xFFFFFFFF

end Framecast.Crc32
