import Framecast.Proofs.Canvas.Writes

/-!
# What a bitmap leaves on a canvas

A bitmap that has all of its pixels covers a rectangle of the canvas that it is copied to: `painted_paste` says which
pixels are overwritten and with which colors.
-/

namespace Framecast

namespace Bitmap

variable {b : Bitmap} {color : (column row : Nat) → Rgba} {corner : Point}

/-- Every pixel of the bitmap is there and has the given color. -/
def Shows (b : Bitmap) (color : (column row : Nat) → Rgba) : Prop :=
  ∀ column row, column < b.width → row < b.height → b.pixel? column row = some (color column row)

/-- The bitmap lies on a point when its top-left corner lies on another. -/
def Covers (b : Bitmap) (corner p : Point) : Prop :=
  (0 ≤ (p.seenFrom corner).x ∧ (p.seenFrom corner).x < b.width) ∧
    0 ≤ (p.seenFrom corner).y ∧ (p.seenFrom corner).y < b.height

/-- A fold that meets no missing pixel visits all of them. -/
theorem foldFrom_eq_foldl {f : α → Nat → Nat → Rgba → α} {count index : Nat}
    (h : ∀ i, index ≤ i → i < index + count →
      b.pixel? (i % b.width) (i / b.width) = some (color (i % b.width) (i / b.width))) (acc : α) :
    b.foldFrom f count index acc =
      (List.range' index count).foldl
        (fun acc i => f acc (i % b.width) (i / b.width) (color (i % b.width) (i / b.width))) acc := by
  induction count generalizing index acc with
  | zero => rfl
  | succ count ih =>
      rw [foldFrom, h index (by omega) (by omega), List.range'_succ, List.foldl_cons]
      exact ih (fun i hi hi' => h i (by omega) (by omega)) _

/-- Each place of the bitmap has a number. -/
theorem exists_index {column row : Nat} (hcolumn : column < b.width) (hrow : row < b.height) :
    ∃ i < b.width * b.height, i % b.width = column ∧ i / b.width = row := by
  have hlast : row * b.width + b.width ≤ b.height * b.width := Canvas.mul_add_le_mul hrow
  rw [Nat.mul_comm b.height] at hlast
  refine ⟨row * b.width + column, by omega, ?_, ?_⟩
  · rw [Nat.mul_add_mod', Nat.mod_eq_of_lt hcolumn]
  · rw [Nat.mul_comm, Nat.mul_add_div (by omega), Nat.div_eq_of_lt hcolumn, Nat.add_zero]

/-- The numbers of the pixels name each place of the bitmap. -/
theorem covers_iff_exists_index {p : Point} :
    b.Covers corner p ↔
      ∃ i < b.width * b.height, p = corner.offset (i % b.width : Nat) (i / b.width : Nat) := by
  obtain ⟨x, y⟩ := p
  simp only [Covers, Point.seenFrom, Point.offset, Point.mk.injEq]
  constructor
  · rintro ⟨⟨hx, hx'⟩, hy, hy'⟩
    obtain ⟨column, hcolumn⟩ := Int.eq_ofNat_of_zero_le hx
    obtain ⟨row, hrow⟩ := Int.eq_ofNat_of_zero_le hy
    obtain ⟨i, hi, hmod, hdiv⟩ := @exists_index b column row (by omega) (by omega)
    exact ⟨i, hi, by omega, by omega⟩
  · rintro ⟨i, hi, hx, hy⟩
    have hwidth : 0 < b.width := Nat.pos_of_mul_pos_right (Nat.zero_lt_of_lt hi)
    have hcolumn := Nat.mod_lt i hwidth
    have hrow := Nat.div_lt_of_lt_mul hi
    generalize i % b.width = column at hcolumn hx
    generalize i / b.width = row at hrow hy
    omega

end Bitmap

namespace Canvas

variable {c : Canvas} {b : Bitmap} {color : (column row : Nat) → Rgba}

/-- The packed number that a bitmap has for a point. -/
def bitmapPicture (format : PixelFormat) (color : (column row : Nat) → Rgba) (corner p : Point) : Nat :=
  format.pack (color (p.seenFrom corner).x.toNat (p.seenFrom corner).y.toNat)

theorem painted_paste (hc : c.Valid) (hb : b.Shows color) (corner : Point) :
    c.Painted (c.paste b corner) (bitmapPicture c.format color corner) (b.Covers corner) := by
  have hpixel (i : Nat) (hi : i < b.width * b.height) :
      b.pixel? (i % b.width) (i / b.width) = some (color (i % b.width) (i / b.width)) :=
    hb _ _ (Nat.mod_lt _ (Nat.pos_of_mul_pos_right (Nat.zero_lt_of_lt hi))) (Nat.div_lt_of_lt_mul hi)
  have hput (d : Canvas) (i : Nat) (hd : c.SameLayout d) :
      d.Painted (d.put (corner.offset (i % b.width : Nat) (i / b.width : Nat))
        (d.format.pack (color (i % b.width) (i / b.width)))) (bitmapPicture c.format color corner)
        (· = corner.offset (i % b.width : Nat) (i / b.width : Nat)) := by
    refine (painted_put (hd.valid hc) (d.format.pack_lt _) _).recolor fun p hp => ?_
    simp only [hp, bitmapPicture, Point.seenFrom_offset, Int.toNat_natCast, hd.format_eq]
  rw [paste, Bitmap.fold, Bitmap.foldFrom_eq_foldl fun i _ hi => hpixel i (by omega)]
  refine (Painted.foldl fun d i _ hd => hput d i hd).congr fun p _ => ?_
  simp only [Bitmap.covers_iff_exists_index, List.mem_range'_1, Nat.zero_le, true_and, Nat.zero_add]

end Canvas

end Framecast
