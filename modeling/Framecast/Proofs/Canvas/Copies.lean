import Framecast.Proofs.Canvas.Layout
import Framecast.Proofs.Canvas.Pixels

/-!
# What a copy leaves on a canvas

A canvas copied onto another covers a rectangle. The rows of the source that land on the target are copied one after
another, each as one run of bytes if the formats agree, and every run stays inside both buffers: `RowOverlap.Fits` names
the bounds that make it so. From the bytes of one row follows what stands in its pixels: those of the source where the
row lands, and what stood there before elsewhere.
-/

namespace Framecast

theorem Coordinate.wrap_le {n : Int} (h : 0 ≤ n) : Coordinate.wrap n ≤ n := by
  simp only [Coordinate.wrap, Int.bmod_def]
  omega

/-- The overlap lies inside both canvases. -/
structure RowOverlap.Fits (o : RowOverlap) (target source : Canvas) (corner : Point) : Prop where
  row_eq : o.targetRow = corner.y + o.sourceRow
  sourceRow : 0 ≤ o.sourceRow ∧ o.sourceRow < source.height
  targetRow : 0 ≤ o.targetRow ∧ o.targetRow < target.height
  first : 0 ≤ o.columns.first ∧ 0 ≤ corner.x + o.columns.first
  last : o.columns.last < source.width ∧ corner.x + o.columns.last < target.width
  nonempty : o.columns.first ≤ o.columns.last

namespace Canvas

variable {target source : Canvas} {corner : Point} {o : RowOverlap}

theorem fits_of_rowOverlap? {row : Int} (hrow : 0 ≤ row ∧ row < source.height)
    (h : rowOverlap? target source corner row = some o) : o.Fits target source corner := by
  have hsource := Coordinate.wrap_le (n := source.width) (by omega)
  have htarget := Coordinate.wrap_le (n := target.width) (by omega)
  simp only [rowOverlap?, Option.ite_none_left_eq_some, Option.some.injEq] at h
  obtain ⟨hno, rfl⟩ := h
  constructor <;> dsimp only <;> omega

/-! ## The bytes of one row -/

/-- A run of pixels inside a row ends inside the buffer. -/
theorem byteIndex_add_le {c : Canvas} (hc : c.Valid) {p : Point} {count : Nat} (hy : p.y.toNat < c.height)
    (hx : p.x.toNat + count ≤ c.width) :
    c.byteIndex p + count * c.format.bytesPerPixel ≤ c.bytes.size := by
  have hrow : p.y.toNat * c.width + c.width ≤ c.height * c.width := mul_add_le_mul hy
  rw [hc.size_eq, byteIndex_eq_place, ← Nat.add_mul, Nat.mul_comm c.width]
  refine Nat.mul_le_mul_right _ ?_
  simp only [place]
  omega

theorem byteCopy_source_le (hs : source.Valid) (hf : source.format = target.format) (ho : o.Fits target source corner) :
    (byteCopy target source corner o).source + (byteCopy target source corner o).count ≤ source.bytes.size := by
  obtain ⟨-, hrow, -, hfirst, hlast, hne⟩ := ho
  simp only [byteCopy, ← hf]
  refine byteIndex_add_le hs ?_ ?_ <;> simp only [Span.length] <;> omega

theorem byteCopy_target_le (ht : target.Valid) (ho : o.Fits target source corner) :
    (byteCopy target source corner o).target + (byteCopy target source corner o).count ≤ target.bytes.size := by
  obtain ⟨-, -, hrow, hfirst, hlast, hne⟩ := ho
  simp only [byteCopy]
  refine byteIndex_add_le ht ?_ ?_ <;> simp only [Span.length] <;> omega

theorem sameLayout_copyBytes (ht : target.Valid) (hs : source.Valid) (hf : source.format = target.format)
    (ho : o.Fits target source corner) : target.SameLayout (copyBytes target source corner o) :=
  ⟨rfl, rfl, rfl, rfl, Buffer.size_copySlice (byteCopy_source_le hs hf ho) (byteCopy_target_le ht ho)⟩

/-- What a byte of a pixel holds after the bytes of an overlap were copied, with places instead of byte indices. -/
theorem byteAt_copyBytes (ht : target.Valid) (hs : source.Valid) (hf : source.format = target.format)
    (ho : o.Fits target source corner) (i : Nat) {k : Nat} (hk : k < target.format.bytesPerPixel) :
    Buffer.byteAt (copyBytes target source corner o).bytes (i * target.format.bytesPerPixel + k) =
      if target.place ⟨corner.x + o.columns.first, o.targetRow⟩ ≤ i ∧
          i < target.place ⟨corner.x + o.columns.first, o.targetRow⟩ + o.columns.length then
        Buffer.byteAt source.bytes (source.place ⟨o.columns.first, o.sourceRow⟩ * target.format.bytesPerPixel +
          (i * target.format.bytesPerPixel + k -
            target.place ⟨corner.x + o.columns.first, o.targetRow⟩ * target.format.bytesPerPixel))
      else Buffer.byteAt target.bytes (i * target.format.bytesPerPixel + k) := by
  have hbyte := Buffer.byteAt_copySlice (byteCopy_source_le hs hf ho) (byteCopy_target_le ht ho)
    (i * target.format.bytesPerPixel + k)
  simp only [byteCopy, byteIndex_eq_place, hf, ← Nat.add_mul, le_block_iff hk, block_lt_iff hk] at hbyte
  simpa only [copyBytes, byteCopy, byteIndex_eq_place, hf] using hbyte

/-- Copying the bytes of an overlap changes exactly its pixels. -/
theorem packed?_copyBytes (ht : target.Valid) (hs : source.Valid) (hf : source.format = target.format)
    (ho : o.Fits target source corner) {p : Point} (hp : target.Contains p) :
    (copyBytes target source corner o).packed? p =
      if p.y = o.targetRow ∧ (p.seenFrom corner).x ∈ o.columns then source.packed? (p.seenFrom corner)
      else target.packed? p := by
  have hcopy : (copyBytes target source corner o).Contains p := hp
  have hindex : (copyBytes target source corner o).byteIndex p = target.place p * target.format.bytesPerPixel :=
    byteIndex_eq_place target p
  have hbyte (k : Nat) := byteAt_copyBytes ht hs hf ho (target.place p) (k := k)
  obtain ⟨hrow, ⟨hrow₀, hrow₁⟩, ⟨hrow₂, hrow₃⟩, ⟨hfirst, hfirst'⟩, ⟨hlast, hlast'⟩, hne⟩ := ho
  -- A byte of the pixel was copied exactly if the pixel is one of the overlap's.
  have hcount : (corner.x + o.columns.first).toNat + o.columns.length ≤ target.width := by
    simp only [Span.length]
    omega
  have hmem := place_mem_row_iff hp hrow₂ hfirst' hcount
  split
  · rename_i hin
    obtain ⟨hy, hx⟩ := hin
    simp only [Span.mem_iff, Point.seenFrom] at hx
    have hplace := hmem.mpr ⟨hy, by omega, by simp only [Span.length]; omega⟩
    have hcontains : source.Contains (p.seenFrom corner) := by
      refine ⟨?_, ?_, ?_, ?_⟩ <;> simp only [Point.seenFrom] <;> omega
    -- The pixel is as far behind the first copied one on the target as on the source.
    obtain ⟨n, hn⟩ : ∃ n : Nat, p.x = corner.x + o.columns.first + n :=
      ⟨(p.x - corner.x - o.columns.first).toNat, by omega⟩
    have htarget : target.place p = target.place ⟨corner.x + o.columns.first, o.targetRow⟩ + n := by
      rw [← place_add target hfirst', ← hn, ← hy]
    have hsource : source.place (p.seenFrom corner) = source.place ⟨o.columns.first, o.sourceRow⟩ + n := by
      rw [← place_add source hfirst]
      simp only [Point.seenFrom, hn, hy, hrow]
      congr 2 <;> omega
    refine packed?_congr hf.symm hcopy hcontains fun k hk => ?_
    rw [hindex, hbyte k hk, if_pos hplace, byteIndex_eq_place, hsource, htarget, hf, Nat.add_mul, Nat.add_mul]
    congr 1
    omega
  · rename_i hout
    have hplace : ¬ (target.place ⟨corner.x + o.columns.first, o.targetRow⟩ ≤ target.place p ∧
        target.place p < target.place ⟨corner.x + o.columns.first, o.targetRow⟩ + o.columns.length) := by
      rw [hmem]
      simp only [Span.mem_iff, Point.seenFrom, Span.length] at hout ⊢
      omega
    refine packed?_congr rfl hcopy hp fun k hk => ?_
    rw [hindex, hbyte k hk, if_neg hplace, byteIndex_eq_place]

/-! ## All rows -/

theorem sameLayout_copyPixels (target source : Canvas) (corner : Point) (o : RowOverlap) :
    target.SameLayout (copyPixels target source corner o) := by
  refine .spanFold (fun d x => ?_) _ target
  split
  · exact .refl d
  · exact sameLayout_put d _ _

theorem sameLayout_copyRow (ht : target.Valid) (hs : source.Valid) (corner : Point) {row : Int}
    (hrow : 0 ≤ row ∧ row < source.height) : target.SameLayout (copyRow source corner target row) := by
  unfold copyRow
  split
  · exact .refl target
  · rename_i o ho
    split
    · rename_i hf
      exact sameLayout_copyBytes ht hs hf (fits_of_rowOverlap? hrow ho)
    · exact sameLayout_copyPixels target source corner o

theorem sameLayout_copyFrom (ht : target.Valid) (hs : source.Valid) (corner : Point) :
    target.SameLayout (target.copyFrom source corner) := by
  have hwrap := Coordinate.wrap_le (n := source.height) (by omega)
  refine Span.fold_preserves _ (fun d row hrow hd => ?_) (.refl target)
  simp only [Span.mem_iff] at hrow
  exact hd.trans (sameLayout_copyRow (hd.valid ht) hs corner (by omega))

/-- Both sides are coordinates. -/
def FitsCoordinates (c : Canvas) : Prop :=
  (c.width : Int) ≤ Coordinate.greatest ∧ (c.height : Int) ≤ Coordinate.greatest

instance (c : Canvas) : Decidable c.FitsCoordinates := inferInstanceAs (Decidable (_ ∧ _))

theorem FitsCoordinates.wrap_width {c : Canvas} (h : c.FitsCoordinates) : Coordinate.wrap c.width = c.width :=
  Coordinate.wrap_of_inRange ⟨by simp only [Coordinate.least]; omega, h.1⟩

theorem FitsCoordinates.wrap_height {c : Canvas} (h : c.FitsCoordinates) : Coordinate.wrap c.height = c.height :=
  Coordinate.wrap_of_inRange ⟨by simp only [Coordinate.least]; omega, h.2⟩

theorem lastColumn_eq {c : Canvas} (h : (c.width : Int) - 1 ≤ Coordinate.greatest) : c.lastColumn = c.width - 1 := by
  rw [lastColumn, Int.sub_eq_add_neg, Coordinate.wrap_wrap_add, ← Int.sub_eq_add_neg,
    Coordinate.wrap_of_inRange ⟨by simp only [Coordinate.least]; omega, h⟩]

theorem lastRow_eq {c : Canvas} (h : (c.height : Int) - 1 ≤ Coordinate.greatest) : c.lastRow = c.height - 1 := by
  rw [lastRow, Int.sub_eq_add_neg, Coordinate.wrap_wrap_add, ← Int.sub_eq_add_neg,
    Coordinate.wrap_of_inRange ⟨by simp only [Coordinate.least]; omega, h⟩]

theorem Valid.lastColumn_lt {c : Canvas} (hc : c.Valid) : c.lastColumn < c.width := by
  have hpos := hc.width_pos
  have hwrap := Coordinate.wrap_le (n := c.width - 1) (by omega)
  rw [lastColumn, Int.sub_eq_add_neg, Coordinate.wrap_wrap_add, ← Int.sub_eq_add_neg]
  omega

theorem SameLayout.fitsCoordinates {c d : Canvas} (h : c.SameLayout d) (hc : c.FitsCoordinates) :
    d.FitsCoordinates := by
  rwa [FitsCoordinates, h.width_eq, h.height_eq]

theorem SameLayout.contains_iff {c d : Canvas} (h : c.SameLayout d) {p : Point} : d.Contains p ↔ c.Contains p := by
  rw [Contains, Contains, h.width_eq, h.height_eq]

end Canvas

end Framecast
