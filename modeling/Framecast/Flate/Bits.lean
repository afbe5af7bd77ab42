import Framecast.Bytes.Buffer

/-!
# Reading bits

A position in a byte buffer that moves bit by bit. The bits of a byte are read from the lowest to the highest, and so
are the bits of a number. Reading fails where the bytes end.
-/

namespace Framecast.Flate

/-- A buffer and the number of bits read from it. -/
structure BitReader where
  bytes : ByteArray
  position : Nat

/-- What reads bits and fails at the end of the bytes. -/
abbrev Reader := StateT BitReader Option

namespace Reader

def bit : Reader Nat := fun r =>
  if r.position / 8 < r.bytes.size then
    some ((Buffer.byteAt r.bytes (r.position / 8)).toNat >>> (r.position % 8) % 2,
      { r with position := r.position + 1 })
  else none

/-- Reads a number of so many bits, the lowest first. -/
def bits : Nat → Reader Nat
  | 0 => return 0
  | count + 1 => do
    let low ← bit
    let high ← bits count
    return low + 2 * high

/-- Reads a number of so many whole bytes, the highest first, continuing from the bytes read before. -/
def wholeBytes : (count high : Nat) → Reader Nat
  | 0, high => return high
  | count + 1, high => do
    let b ← bits 8
    wholeBytes count (high * 256 + b)

/-- Skips to the next whole byte. -/
def align : Reader Unit := fun r => some ((), { r with position := (r.position + 7) / 8 * 8 })

/-- Fails unless a condition holds. -/
def require (p : Prop) [Decidable p] : Reader Unit := if p then return () else failure

end Reader

end Framecast.Flate
