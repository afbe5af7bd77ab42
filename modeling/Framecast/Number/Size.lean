/-!
# Sizes

The sides of a bitmap are unsigned 32-bit numbers, and the bytes of a buffer are counted by unsigned 64-bit numbers.
Arithmetic on them is done in `Nat`, and the two functions here are the places where a result is brought back into the
range: each drops the bits above it, as the machine does.
-/

namespace Framecast.Size

/-- The side that has the same low 32 bits. -/
def wrapSide (n : Nat) : Nat := n % 4294967296

/-- The count of bytes that has the same low 64 bits. -/
def wrapBytes (n : Nat) : Nat := n % 18446744073709551616

theorem wrapSide_of_lt {n : Nat} (h : n < 4294967296) : wrapSide n = n := Nat.mod_eq_of_lt h

theorem wrapBytes_of_lt {n : Nat} (h : n < 18446744073709551616) : wrapBytes n = n := Nat.mod_eq_of_lt h

end Framecast.Size
