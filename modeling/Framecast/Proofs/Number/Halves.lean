import Framecast.Number.Single

/-!
# Small halves

A half of an integer whose numerator has at most 24 bits is a single-precision number, so that sums and differences of
such halves are exact as long as they stay small. The middles of rows and columns are such halves.
-/

namespace Framecast

namespace Dyad

theorem natAbs_shiftRight_le (n : Int) (k : Nat) : (n >>> k).natAbs ≤ n.natAbs := by
  rw [Int.shiftRight_eq_div_pow]
  exact Int.natAbs_ediv_le_natAbs _ _

/-- A numerator that fits in the precision is kept, odd or not. -/
theorem nearest_ofIntWithPrec {precision : Nat} {n : Int} (h : n.natAbs < 1 <<< precision) (k : Int) :
    nearest precision (.ofIntWithPrec n k) = .ofIntWithPrec n k := by
  unfold Dyadic.ofIntWithPrec
  split
  · rfl
  · exact nearest_of_natAbs_lt (Nat.lt_of_le_of_lt (natAbs_shiftRight_le _ _) h)

/-- An integer as a number of halves. -/
theorem ofInt_eq_halves (n : Int) : Dyadic.ofInt n = .ofIntWithPrec (2 * n) 1 := by
  have hshift := Dyadic.ofIntWithPrec_shiftLeft_add (x := n) (i := 0) (n := 1)
  rw [Dyadic.ofInt, ← hshift, Int.shiftLeft_eq, Int.mul_comm]
  rfl

theorem add_halves (a b : Int) :
    Dyadic.ofIntWithPrec a 1 + Dyadic.ofIntWithPrec b 1 = Dyadic.ofIntWithPrec (a + b) 1 := by
  rw [← Dyadic.toRat_inj, Dyadic.toRat_add]
  simp only [Dyadic.toRat_ofIntWithPrec_eq_mul_two_pow, Rat.intCast_add, Rat.add_mul]

theorem sub_halves (a b : Int) :
    Dyadic.ofIntWithPrec a 1 - Dyadic.ofIntWithPrec b 1 = Dyadic.ofIntWithPrec (a - b) 1 := by
  have hneg := add_halves a (-b)
  rw [← Dyadic.neg_ofIntWithPrec] at hneg
  exact hneg

/-- Numbers with one power of two are compared by their numerators. -/
theorem ofIntWithPrec_le_iff {a b k : Int} : Dyadic.ofIntWithPrec a k ≤ Dyadic.ofIntWithPrec b k ↔ a ≤ b := by
  rw [← Dyadic.toRat_le_toRat_iff]
  simp only [Dyadic.toRat_ofIntWithPrec_eq_mul_two_pow]
  rw [← Rat.intCast_le_intCast (a := a)]
  have hunit : (0 : Rat) < 2 ^ (-k) := Rat.zpow_pos (by decide)
  exact ⟨fun h => Rat.le_of_mul_le_mul_right h hunit, fun h => Rat.mul_le_mul_of_nonneg_right h (Rat.le_of_lt hunit)⟩

theorem halves_le_iff {a b : Int} : Dyadic.ofIntWithPrec a 1 ≤ Dyadic.ofIntWithPrec b 1 ↔ a ≤ b := ofIntWithPrec_le_iff

theorem halves_lt_iff {a b : Int} : Dyadic.ofIntWithPrec a 1 < Dyadic.ofIntWithPrec b 1 ↔ a < b := by
  rw [← Dyadic.not_lt, halves_le_iff, Int.not_le]

/-- The integer above a half. -/
theorem ceil_half (n : Int) : ceil (.ofIntWithPrec (2 * n - 1) 1) = n := by
  have hodd : (2 * n - 1) % 2 = 1 := by omega
  have hvalue : Dyadic.ofIntWithPrec (2 * n - 1) 1 = .ofOdd (2 * n - 1) 1 hodd := Dyadic.ofOdd_eq_ofIntWithPrec.symm
  have hshift : (-(2 * n - 1)) >>> (1 : Nat) = -n := by
    rw [Int.shiftRight_eq_div_pow]
    omega
  rw [ceil, hvalue, Dyadic.neg_ofOdd, floor, if_neg (by decide)]
  exact (congrArg Neg.neg hshift).trans (Int.neg_neg n)

end Dyad

namespace Single

/-- The integer and its halves are kept exactly. -/
def Tame (n : Int) : Prop := n.natAbs ≤ 4194304

variable {m n : Int}

theorem natAbs_double_lt (h : Tame n) : (2 * n + 1).natAbs < 1 <<< precision ∧ (2 * n).natAbs < 1 <<< precision ∧
    (2 * n - 1).natAbs < 1 <<< precision := by
  have hbound : 1 <<< precision = 16777216 := by decide
  rw [Tame] at h
  omega

theorem ofInt_of_tame (h : Tame n) : ofInt n = .ofIntWithPrec (2 * n) 1 := by
  rw [ofInt, Dyad.ofInt_eq_halves, Dyad.nearest_ofIntWithPrec (natAbs_double_lt h).2.1]

theorem add_half (h : Tame n) : add (ofInt n) half = .ofIntWithPrec (2 * n + 1) 1 := by
  rw [add, ofInt_of_tame h, half, Dyad.half, Dyad.add_halves, Dyad.nearest_ofIntWithPrec (natAbs_double_lt h).1]

theorem sub_half (h : Tame n) : sub (ofInt n) half = .ofIntWithPrec (2 * n - 1) 1 := by
  rw [sub, ofInt_of_tame h, half, Dyad.half, Dyad.sub_halves, Dyad.nearest_ofIntWithPrec (natAbs_double_lt h).2.2]

theorem ofInt_le_iff (hm : Tame m) (hn : Tame n) : ofInt m ≤ ofInt n ↔ m ≤ n := by
  rw [ofInt_of_tame hm, ofInt_of_tame hn, Dyad.halves_le_iff]
  omega

theorem ofInt_zero : ofInt 0 = 0 := rfl

theorem mul_zero (a : Single) : mul a 0 = 0 := by
  rw [mul, Dyadic.mul_zero]
  rfl

theorem add_zero (h : Tame n) : add (ofInt n) 0 = ofInt n := by
  rw [add, Dyadic.add_zero, ofInt_of_tame h, Dyad.nearest_ofIntWithPrec (natAbs_double_lt h).2.1]

end Single

end Framecast
