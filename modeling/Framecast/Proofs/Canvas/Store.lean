import Framecast.Proofs.Canvas.Writes
import Mathlib.Algebra.Group.Nat.Defs

/-!
# Canvases as stores of numbers

A pixel that a number is put into holds its low bits, as many as the format has for a pixel, and every other pixel holds
what it held before. That is so because the bytes of two pixels lie apart, and the bytes of all pixels are the buffer.
-/

namespace Framecast

theorem LittleEndian.range_eq_two_pow (count : Nat) : range count = 2 ^ (count * 8) := by
  induction count with
  | zero => rfl
  | succ count ih =>
      calc
        range (count + 1) = 2 ^ (count * 8) * 256 := by rw [range, ih, Nat.mul_comm]
        _ = 2 ^ ((count + 1) * 8) := by rw [Nat.add_mul, Nat.pow_add, Nat.one_mul]

namespace Canvas

variable {c : Canvas} {p q : Point} {i : Nat}

/-- The bytes that a pixel occupies in the buffer. -/
def Occupies (c : Canvas) (p : Point) (i : Nat) : Prop :=
  c.byteIndex p ≤ i ∧ i < c.byteIndex p + c.format.bytesPerPixel

theorem byteIndex_add_le_of_place_lt (h : c.place p < c.place q) :
    c.byteIndex p + c.format.bytesPerPixel ≤ c.byteIndex q := by
  rw [byteIndex_eq_place, byteIndex_eq_place]
  exact mul_add_le_mul h

theorem not_occupies_of_ne (hp : c.Contains p) (hq : c.Contains q) (hne : p ≠ q) (hi : c.Occupies p i) :
    ¬ c.Occupies q i := by
  rintro ⟨hfirst, hlast⟩
  obtain ⟨hfirst', hlast'⟩ := hi
  rcases place_lt_or_gt hp hq hne with hlt | hgt
  · have := byteIndex_add_le_of_place_lt hlt
    omega
  · have := byteIndex_add_le_of_place_lt hgt
    omega

theorem lt_size_iff_exists_occupies (hc : c.Valid) : i < c.bytes.size ↔ ∃ p, c.Contains p ∧ c.Occupies p i := by
  constructor
  · intro hi
    obtain ⟨p, hp, k, hk, rfl⟩ := exists_byteIndex hc hi
    exact ⟨p, hp, Nat.le_add_right _ _, Nat.add_lt_add_left hk _⟩
  · rintro ⟨p, hp, -, hi⟩
    exact Nat.lt_of_lt_of_le hi (byteIndex_add_bytesPerPixel_le hc hp)

/-- A canvas is a lawful store: what is put into a pixel is read from it and from no other, where a pixel holds as many
bits as the format says. Different pixels have different bytes of the buffer, and each of its bytes is one of a pixel. -/
theorem put_lawful (hc : c.Valid) :
    (∀ p value, c.SameLayout (c.put p value)) ∧
      (∀ p q value, (c.put p value).packed? q =
        if q = p ∧ c.Contains p then some (value % 2 ^ c.format.bitsPerPixel) else c.packed? q) ∧
      (∀ p q, c.Contains p → c.Contains q → p ≠ q → ∀ i, c.Occupies p i → ¬ c.Occupies q i) ∧
      ∀ i, i < c.bytes.size ↔ ∃ p, c.Contains p ∧ c.Occupies p i := by
  refine ⟨sameLayout_put c, fun p q value => ?_, fun p q hp hq hne i => not_occupies_of_ne hp hq hne, fun i => ?_⟩
  · rw [packed?_put hc, LittleEndian.range_eq_two_pow]
    by_cases heq : q = p
    · rw [heq]
      rfl
    · rw [if_neg fun h => heq h.1, if_neg fun h => heq h.1]
  · exact lt_size_iff_exists_occupies hc

/-- A number of more bits than a pixel has leaves the pixel beside it alone, and one behind the last row is dropped. -/
theorem put_lawful_of_two_pixels :
    let c : Canvas := ⟨2, 1, .rgba4444, false, Buffer.zeros 4⟩
    c.Valid ∧ (c.put ⟨1, 0⟩ 65543).packed? ⟨1, 0⟩ = some 7 ∧ (c.put ⟨1, 0⟩ 65543).packed? ⟨0, 0⟩ = c.packed? ⟨0, 0⟩ ∧
      (c.put ⟨0, 1⟩ 7).packed? ⟨0, 1⟩ = none ∧ ¬ (c.Occupies ⟨0, 0⟩ 1 ∧ c.Occupies ⟨1, 0⟩ 1) := by
  intro c
  have hvalid : c.Valid := ⟨by decide, by decide, by decide⟩
  obtain ⟨-, hread, hapart, -⟩ := put_lawful hvalid
  have hlow : 65543 % 2 ^ c.format.bitsPerPixel = 7 := by decide
  refine ⟨hvalid, ?_, ?_, ?_, fun h => hapart ⟨0, 0⟩ ⟨1, 0⟩ (by decide) (by decide) (by decide) 1 h.1 h.2⟩
  · rw [hread, if_pos ⟨rfl, by decide⟩, hlow]
  · rw [hread, if_neg (by decide)]
  · rw [hread, if_neg (by decide), packed?_eq_none (by decide)]

end Canvas

end Framecast
