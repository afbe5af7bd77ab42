import Framecast.Bytes.Buffer

/-!
# Big-endian numbers

A number in a fixed count of bytes, the high byte first, as the fields of a PNG file have it.
-/

namespace Framecast.BigEndian

/-- The number in `count` bytes from `start`, continuing from the bytes read before. -/
def loadFrom (b : ByteArray) : (count start high : Nat) → Nat
  | 0, _, high => high
  | count + 1, start, high => loadFrom b count (start + 1) (high * 256 + (Buffer.byteAt b start).toNat)

/-- The number in `count` bytes from `start`. -/
def load (b : ByteArray) (count start : Nat) : Nat := loadFrom b count start 0

end Framecast.BigEndian
