/-!
# Coordinates

Coordinates are 32-bit signed integers. Arithmetic on them is done in `Int`, and a result that a caller keeps
inside the range needs nothing more. The two functions here bring a value back into the range: `wrap` keeps the low 32
bits, as machine arithmetic and conversions do, and `saturate` moves to the nearer end.
-/

namespace Framecast.Coordinate

def greatest : Int := 2147483647

/-- The least coordinate. -/
def least : Int := -2147483648

/-- The integer lies in the range of a coordinate. -/
def InRange (n : Int) : Prop := least ≤ n ∧ n ≤ greatest

instance (n : Int) : Decidable (InRange n) := inferInstanceAs (Decidable (_ ∧ _))

/-- The coordinate that has the same low 32 bits. -/
def wrap (n : Int) : Int := n.bmod 4294967296

/-- The coordinate nearest to the integer. -/
def saturate (n : Int) : Int := max least (min n greatest)

theorem wrap_inRange (n : Int) : InRange (wrap n) := by
  have hlo := Int.le_bmod (x := n) (m := 4294967296) (by decide)
  have hhi := Int.bmod_lt (x := n) (m := 4294967296) (by decide)
  simp only [InRange, wrap, least, greatest]
  omega

theorem saturate_inRange (n : Int) : InRange (saturate n) := by
  simp only [InRange, saturate, least, greatest]
  omega

theorem wrap_of_inRange {n : Int} (h : InRange n) : wrap n = n := by
  simp only [InRange, least, greatest] at h
  simp only [wrap, Int.bmod_def]
  omega

theorem wrap_emod (n : Int) : wrap n % 4294967296 = n % 4294967296 := Int.bmod_emod

theorem wrap_of_emod (n : Int) : wrap (n % 4294967296) = wrap n := Int.emod_bmod _ _

theorem wrap_wrap_add (n m : Int) : wrap (wrap n + m) = wrap (n + m) := Int.bmod_add_bmod

theorem saturate_of_inRange {n : Int} (h : InRange n) : saturate n = n := by
  simp only [InRange, saturate, least, greatest] at h ⊢
  omega

end Framecast.Coordinate
