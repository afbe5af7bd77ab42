/-!
# Sums over bytes

The check of 32 bits behind compressed data: the sum of the bytes, from one on, in the low half, and the sum of all
these sums in the high half. Both are taken modulo the greatest prime of 16 bits.
-/

namespace Framecast.Adler32

/-- The modulus of both sums. -/
def modulus : Nat := 65521

/-- The two sums after another byte. -/
def update (low high : Nat) (b : UInt8) : Nat × Nat :=
  let low := (low + b.toNat) % modulus
  (low, (high + low) % modulus)

/-- The check of bytes. -/
def ofBytes (b : ByteArray) : Nat :=
  let (low, high) := b.foldl (fun (low, high) byte => update low high byte) (1, 0)
  high * 65536 + low

end Framecast.Adler32
