import Framecast.Proofs.Number.Halves

/-!
# Rounding and order

Rounding keeps the leading bits of a number and adds one in their last place at most. So a number that needs no
rounding stays a lower bound of a positive number that is rounded, and, as rounding does not look at the sign, an upper
bound of a negative one.
-/

namespace Framecast

namespace Dyad

variable {precision n m : Nat} {j k : Int} {x : Dyadic}

theorem ofIntWithPrec_shiftLeft (n d : Nat) (j : Int) :
    .ofIntWithPrec (n <<< d : Nat) (j + d) = Dyadic.ofIntWithPrec n j :=
  Dyadic.ofIntWithPrec_shiftLeft_add (x := n) (n := d)

theorem le_shiftRight_of_shiftLeft_le {d e : Nat} (h : n <<< (d + e) ≤ m) : n <<< d ≤ m >>> e := by
  rw [Nat.shiftLeft_add, Nat.shiftLeft_eq _ e] at h
  rw [Nat.shiftRight_eq_div_pow]
  exact (Nat.le_div_iff_mul_le (Nat.two_pow_pos e)).mpr h

/-- What is kept of a numerator that is too long has as many bits as fit. -/
theorem le_double_kept (hn : n < 1 <<< precision) (hm : 0 < m) (hlong : precision ≤ m.log2) :
    n ≤ (m >>> (m.log2 + 1 - precision)) * 2 := by
  rw [Nat.one_shiftLeft] at hn
  cases precision with
  | zero => omega
  | succ bits =>
      have hlog : bits + (m.log2 + 1 - (bits + 1)) = m.log2 := by omega
      have hkept : 1 <<< bits ≤ m >>> (m.log2 + 1 - (bits + 1)) := by
        refine le_shiftRight_of_shiftLeft_le ?_
        rw [hlog, Nat.one_shiftLeft]
        exact Nat.log2_self_le (Nat.ne_of_gt hm)
      rw [Nat.one_shiftLeft] at hkept
      rw [Nat.pow_succ] at hn
      omega

/-- Dropping bits does not pass a number that has no more bits than are kept. -/
theorem le_kept (hn : n < 1 <<< precision) (hm : 0 < m) (h : Dyadic.ofIntWithPrec n j ≤ .ofIntWithPrec m k) :
    Dyadic.ofIntWithPrec n j ≤
      .ofIntWithPrec (m >>> (m.log2 + 1 - precision) : Nat) (k - (m.log2 + 1 - precision : Nat)) := by
  have hlong := le_double_kept hn hm
  have hexcess : precision ≤ m.log2 ∨ m.log2 + 1 - precision = 0 := by omega
  generalize m.log2 + 1 - precision = excess at hlong hexcess ⊢
  rcases hexcess with hexcess | rfl
  · rcases Int.lt_or_le k (j + excess) with hfine | hcoarse
    · -- The bound has bits behind the last place that is kept, and so none as high as the highest kept one.
      obtain ⟨d, hd⟩ := Int.le.dest hfine
      have hplace : k - excess + (d + 1 : Nat) = j := by omega
      rw [← ofIntWithPrec_shiftLeft (m >>> excess) (d + 1), hplace, ofIntWithPrec_le_iff]
      refine Int.ofNat_le.mpr (Nat.le_trans (hlong hexcess) ?_)
      rw [Nat.shiftLeft_eq]
      exact Nat.mul_le_mul_left _ (Nat.le_pow (Nat.succ_pos d))
    · -- The bound is a multiple of the last place that is kept.
      obtain ⟨d, hd⟩ := Int.le.dest hcoarse
      have hplace : j + (d + excess : Nat) = k := by omega
      have hkept : j + d = k - excess := by omega
      rw [← ofIntWithPrec_shiftLeft n (d + excess), hplace, ofIntWithPrec_le_iff] at h
      rw [← ofIntWithPrec_shiftLeft n d, hkept, ofIntWithPrec_le_iff]
      exact Int.ofNat_le.mpr (le_shiftRight_of_shiftLeft_le (Int.ofNat_le.mp h))
  · rwa [Nat.shiftRight_zero, Int.natCast_zero, Int.sub_zero]

/-- Rounding a positive number drops bits and adds one in the last place, or nothing. -/
theorem kept_le_nearest {hm : (m : Int) % 2 = 1} :
    .ofIntWithPrec (m >>> (m.log2 + 1 - precision) : Nat) (k - (m.log2 + 1 - precision : Nat)) ≤
      nearest precision (.ofOdd m k hm) := by
  simp only [nearest, Int.natAbs_natCast]
  split
  · rename_i hshort
    rw [hshort, Nat.shiftRight_zero, Int.natCast_zero, Int.sub_zero, Dyadic.ofOdd_eq_ofIntWithPrec]
    exact Dyadic.le_refl _
  · rw [if_neg (by omega), ofIntWithPrec_le_iff]
    split <;> omega

/-- A number that needs no rounding stays a lower bound. -/
theorem le_nearest (hn : n < 1 <<< precision) (h : Dyadic.ofIntWithPrec n j ≤ x) :
    .ofIntWithPrec n j ≤ nearest precision x := by
  cases x with
  | zero => exact h
  | ofOdd i k hi =>
      rw [Dyadic.ofOdd_eq_ofIntWithPrec] at h
      have hzero : Dyadic.ofIntWithPrec 0 k ≤ .ofIntWithPrec n j := by
        rw [Dyadic.ofIntWithPrec_zero, ← Dyadic.ofIntWithPrec_zero (i := j), ofIntWithPrec_le_iff]
        exact Int.natCast_nonneg n
      obtain ⟨m, rfl⟩ := Int.eq_ofNat_of_zero_le (ofIntWithPrec_le_iff.mp (Dyadic.le_trans hzero h))
      exact Dyadic.le_trans (le_kept hn (by omega) h) kept_le_nearest

theorem nearest_neg (precision : Nat) (x : Dyadic) : nearest precision (-x) = -nearest precision x := by
  cases x with
  | zero => rfl
  | ofOdd i k hi =>
      rw [Dyadic.neg_ofOdd]
      simp only [nearest, Int.natAbs_neg]
      split
      · rw [Dyadic.neg_ofOdd]
      · rw [Dyadic.neg_ofIntWithPrec]
        congr 1
        split <;> split <;> omega

/-- A negative number that needs no rounding stays an upper bound. -/
theorem nearest_le_neg (hn : n < 1 <<< precision) (h : x ≤ -.ofIntWithPrec n j) :
    nearest precision x ≤ -.ofIntWithPrec n j := by
  have hneg : .ofIntWithPrec n j ≤ nearest precision (-x) := le_nearest hn (by grind)
  rw [nearest_neg] at hneg
  grind

end Dyad

end Framecast
