import Framecast.Proofs.Canvas.Writes

/-!
# Copies from format to format

A copy overwrites the pixels that the source lands on with the source's colors, packed in the format of the target. The
rows are copied as bytes between canvases of one format and pixel by pixel otherwise, but which of the two makes no
difference: packing undoes unpacking, and canvases are equal if their pixels are.
-/

namespace Framecast

namespace Canvas

variable {c d target source : Canvas} {corner p : Point} {o : RowOverlap} {color : Rgba}

/-- Canvases of one layout are equal if their pixels are. -/
theorem SameLayout.eq_of_packed? (h : c.SameLayout d) (hc : c.Valid)
    (hpixels : ∀ p, c.Contains p → d.packed? p = c.packed? p) : d = c := by
  have hbytes : d.bytes = c.bytes := by
    refine ByteArray.ext_getElem h.size_eq fun i hi hi' => ?_
    rw [← Buffer.byteAt_of_lt, ← Buffer.byteAt_of_lt]
    obtain ⟨p, hp, k, hk, rfl⟩ := exists_byteIndex hc hi'
    have hindex : d.byteIndex p = c.byteIndex p := by
      rw [byteIndex, byteIndex, stride, stride, h.width_eq, h.format_eq]
    have hload := hpixels p hp
    rw [packed?_eq (h.contains_iff.mpr hp), packed?_eq hp, Option.some.injEq, loadAt, loadAt, h.format_eq, hindex]
      at hload
    exact LittleEndian.byteAt_eq_of_load_eq hload hk
  obtain ⟨hwidth, hheight, hformat, hantialias, -⟩ := h
  cases c
  cases d
  cases hwidth
  cases hheight
  cases hformat
  cases hantialias
  cases hbytes
  rfl

/-! ## What a source shows on a target -/

theorem color?_eq (hp : c.Contains p) : c.color? p = some (c.format.unpack (c.loadAt (c.byteIndex p))) := by
  rw [color?, packed?_eq hp, Option.map_some]

theorem contains_of_color? (h : c.color? p = some color) : c.Contains p :=
  Decidable.not_not.mp fun hp => by
    rw [color?, packed?_eq_none hp] at h
    cases h

/-- The packed number that the pixel of a source has in another format. -/
def copyPicture (format : PixelFormat) (source : Canvas) (corner p : Point) : Nat :=
  format.pack (source.format.unpack (source.loadAt (source.byteIndex (p.seenFrom corner))))

theorem copyPicture_eq (h : source.color? (p.seenFrom corner) = some color) (format : PixelFormat) :
    copyPicture format source corner p = format.pack color := by
  rw [color?_eq (contains_of_color? h), Option.some.injEq] at h
  rw [copyPicture, h]

/-- In its own format the pixel of a source keeps its packed number. -/
theorem packed?_eq_copyPicture (hp : source.Contains (p.seenFrom corner)) :
    source.packed? (p.seenFrom corner) = some (copyPicture source.format source corner p) := by
  rw [packed?_eq hp, copyPicture, PixelFormat.pack_unpack, loadAt, Nat.mod_eq_of_lt (LittleEndian.load_lt _ _ _)]

/-! ## One row -/

theorem painted_copyBytes (ht : target.Valid) (hs : source.Valid) (hf : source.format = target.format)
    (ho : o.Fits target source corner) :
    target.Painted (copyBytes target source corner o) (copyPicture target.format source corner)
      (fun p => p.y = o.targetRow ∧ (p.seenFrom corner).x ∈ o.columns) where
  layout := sameLayout_copyBytes ht hs hf ho
  inside p hp hlands := by
    have hcontains : source.Contains (p.seenFrom corner) := by
      obtain ⟨hrow, hsource, -, hfirst, hlast, -⟩ := ho
      simp only [Span.mem_iff, Point.seenFrom] at hlands
      refine ⟨?_, ?_, ?_, ?_⟩ <;> simp only [Point.seenFrom] <;> omega
    rw [packed?_copyBytes ht hs hf ho hp, if_pos hlands, packed?_eq_copyPicture hcontains, hf]
  outside p hout := by
    by_cases hp : target.Contains p
    · rw [packed?_copyBytes ht hs hf ho hp, if_neg hout]
    · exact (sameLayout_copyBytes ht hs hf ho).packed?_of_not_contains hp

theorem painted_copyPixels (ht : target.Valid) (ho : o.Fits target source corner) :
    target.Painted (copyPixels target source corner o) (copyPicture target.format source corner)
      (fun p => p.y = o.targetRow ∧ (p.seenFrom corner).x ∈ o.columns) := by
  obtain ⟨hrow, hsource, -, hfirst, hlast, -⟩ := ho
  unfold copyPixels
  refine (Painted.spanFold (S := fun x p => p = ⟨corner.x + x, o.targetRow⟩) fun d x hx hd => ?_).congr fun p _ => ?_
  · have hcontains : source.Contains ⟨x, o.sourceRow⟩ := by
      simp only [Span.mem_iff] at hx
      refine ⟨?_, ?_, ?_, ?_⟩ <;> simp only <;> omega
    have hseen : (⟨corner.x + x, o.targetRow⟩ : Point).seenFrom corner = ⟨x, o.sourceRow⟩ := by
      simp only [Point.seenFrom, hrow, Point.mk.injEq]
      omega
    rw [color?_eq hcontains]
    refine (painted_put (hd.valid ht) (d.format.pack_lt _) _).recolor fun p hp => ?_
    rw [hp, copyPicture, hseen, hd.format_eq]
  · simp only [Span.mem_iff, Point.seenFrom]
    constructor
    · rintro ⟨x, hx, rfl⟩
      refine ⟨rfl, ?_⟩
      simp only
      omega
    · rintro ⟨hy, hx⟩
      refine ⟨p.x - corner.x, hx, ?_⟩
      obtain ⟨px, py⟩ := p
      simp only [Point.mk.injEq] at hy ⊢
      omega

/-- A point of the target shows a source row exactly if the row lands on it. -/
theorem lands_iff (htc : target.FitsCoordinates) (hsc : source.FitsCoordinates) {row : Int}
    (hrow : 0 ≤ row ∧ row < source.height) (hp : target.Contains p) :
    source.Contains (p.seenFrom corner) ∧ (p.seenFrom corner).y = row ↔
      ∃ o, rowOverlap? target source corner row = some o ∧ p.y = o.targetRow ∧ (p.seenFrom corner).x ∈ o.columns := by
  obtain ⟨hx, hx', hy, hy'⟩ := hp
  simp only [rowOverlap?, hsc.wrap_width, htc.wrap_width, Option.ite_none_left_eq_some, Option.some.injEq,
    and_assoc, exists_and_left, exists_eq_left', Contains, Point.seenFrom, Span.mem_iff]
  omega

/-- What is done with every overlap decides what is done with every row. -/
theorem painted_of_overlap {picture : Point → Nat} (htc : target.FitsCoordinates) (hsc : source.FitsCoordinates)
    {row : Int} (hrow : 0 ≤ row ∧ row < source.height) {f : RowOverlap → Canvas}
    (hf : ∀ o : RowOverlap, o.Fits target source corner →
      target.Painted (f o) picture (fun p => p.y = o.targetRow ∧ (p.seenFrom corner).x ∈ o.columns)) :
    target.Painted ((rowOverlap? target source corner row).elim target f) picture
      (fun p => source.Contains (p.seenFrom corner) ∧ (p.seenFrom corner).y = row) := by
  cases ho : rowOverlap? target source corner row with
  | none =>
      refine (Painted.refl target _).congr fun p hp => ?_
      simp only [lands_iff htc hsc hrow hp, ho, reduceCtorEq, false_and, exists_false]
  | some o =>
      refine (hf o (fits_of_rowOverlap? hrow ho)).congr fun p hp => ?_
      simp only [lands_iff htc hsc hrow hp, ho, Option.some.injEq, exists_eq_left']

/-! ## All rows -/

theorem copyRow_eq (source : Canvas) (corner : Point) (target : Canvas) (row : Int) :
    copyRow source corner target row = (rowOverlap? target source corner row).elim target fun o =>
      if source.format = target.format then copyBytes target source corner o
      else copyPixels target source corner o := by
  unfold copyRow
  cases rowOverlap? target source corner row <;> rfl

/-- Copies what lands on the target of one source row pixel by pixel, whatever the formats. -/
def convertRow (source : Canvas) (corner : Point) (target : Canvas) (row : Int) : Canvas :=
  (rowOverlap? target source corner row).elim target (copyPixels target source corner)

/-- Copies a whole canvas pixel by pixel, whatever the formats. -/
def convertFrom (target source : Canvas) (corner : Point) : Canvas :=
  Span.fold ⟨0, Coordinate.wrap source.height - 1⟩ (convertRow source corner) target

/-- Rows that are each copied as they should be make up the whole copy. -/
theorem painted_rows {picture : Point → Nat} {f : Canvas → Int → Canvas} (hsc : source.FitsCoordinates)
    (hf : ∀ (d : Canvas) (row : Int), 0 ≤ row ∧ row < source.height → target.SameLayout d → d.Painted (f d row) picture
      (fun p => source.Contains (p.seenFrom corner) ∧ (p.seenFrom corner).y = row)) :
    target.Painted (Span.fold ⟨0, Coordinate.wrap source.height - 1⟩ f target) picture
      (fun p => source.Contains (p.seenFrom corner)) := by
  refine (Painted.spanFold fun d row hrow hd => hf d row ?_ hd).congr fun p _ => ?_
  · simp only [Span.mem_iff, hsc.wrap_height] at hrow
    omega
  · simp only [Span.mem_iff, hsc.wrap_height]
    constructor
    · rintro ⟨row, -, hin, -⟩
      exact hin
    · exact fun hin => ⟨_, ⟨hin.2.2.1, Int.le_sub_one_of_lt hin.2.2.2⟩, hin, rfl⟩

theorem painted_copyFrom (ht : target.Valid) (hs : source.Valid) (htc : target.FitsCoordinates)
    (hsc : source.FitsCoordinates) (corner : Point) :
    target.Painted (target.copyFrom source corner) (copyPicture target.format source corner)
      (fun p => source.Contains (p.seenFrom corner)) := by
  refine painted_rows hsc fun d row hrow hd => ?_
  rw [copyRow_eq]
  refine painted_of_overlap (hd.fitsCoordinates htc) hsc hrow fun o ho => ?_
  rw [← hd.format_eq]
  split
  · rename_i hf
    exact painted_copyBytes (hd.valid ht) hs hf ho
  · exact painted_copyPixels (hd.valid ht) ho

theorem painted_convertFrom (ht : target.Valid) (htc : target.FitsCoordinates) (hsc : source.FitsCoordinates)
    (corner : Point) :
    target.Painted (target.convertFrom source corner) (copyPicture target.format source corner)
      (fun p => source.Contains (p.seenFrom corner)) := by
  refine painted_rows hsc fun d row hrow hd => ?_
  refine painted_of_overlap (hd.fitsCoordinates htc) hsc hrow fun o ho => ?_
  rw [← hd.format_eq]
  exact painted_copyPixels (hd.valid ht) ho

/-- After a copy between canvases of one format, the target holds the source's pixels where the source lies and what it
held elsewhere. -/
theorem packed?_copyFrom (ht : target.Valid) (hs : source.Valid) (hf : source.format = target.format)
    (htc : target.FitsCoordinates) (hsc : source.FitsCoordinates) (corner : Point) (hp : target.Contains p) :
    (target.copyFrom source corner).packed? p =
      if source.Contains (p.seenFrom corner) then source.packed? (p.seenFrom corner) else target.packed? p := by
  have hcopy := painted_copyFrom ht hs htc hsc corner
  split
  · rename_i hin
    rw [hcopy.inside p hp hin, packed?_eq_copyPicture hin, hf]
  · rename_i hout
    exact hcopy.outside p hout

/-- Two canvases on which the same pixels are overwritten with the same picture are equal. -/
theorem Painted.unique {picture : Point → Nat} {S : Point → Prop} {e : Canvas} (h : c.Painted d picture S)
    (h' : c.Painted e picture S) (hc : c.Valid) : e = d := by
  have hlayout : d.SameLayout e := ⟨by rw [h'.layout.width_eq, h.layout.width_eq],
    by rw [h'.layout.height_eq, h.layout.height_eq], by rw [h'.layout.format_eq, h.layout.format_eq],
    by rw [h'.layout.antialias_eq, h.layout.antialias_eq], by rw [h'.layout.size_eq, h.layout.size_eq]⟩
  refine hlayout.eq_of_packed? (h.layout.valid hc) fun p hp => ?_
  by_cases hS : S p
  · have hp := h.layout.contains_iff.mp hp
    rw [h.inside p hp hS, h'.inside p hp hS]
  · rw [h.outside p hS, h'.outside p hS]

/-- A copy overwrites the pixels that the source lands on with the source's colors and no others. Between canvases of one
format it moves the packed numbers as they are, and in every case it gives the buffer that the copy pixel by pixel
gives. -/
theorem copyFrom_pixel_by_pixel (ht : target.Valid) (hs : source.Valid) (htc : target.FitsCoordinates)
    (hsc : source.FitsCoordinates) (corner : Point) :
    target.SameLayout (target.copyFrom source corner) ∧
      (∀ p color, target.Contains p → source.color? (p.seenFrom corner) = some color →
        (target.copyFrom source corner).packed? p = some (target.format.pack color)) ∧
      (∀ p, ¬ source.Contains (p.seenFrom corner) → (target.copyFrom source corner).packed? p = target.packed? p) ∧
      (source.format = target.format → ∀ p, target.Contains p → source.Contains (p.seenFrom corner) →
        (target.copyFrom source corner).packed? p = source.packed? (p.seenFrom corner)) ∧
      target.copyFrom source corner = target.convertFrom source corner := by
  have hcopy := painted_copyFrom ht hs htc hsc corner
  refine ⟨hcopy.layout, fun p color hp hcolor => ?_, hcopy.outside, fun hf p hp hin => ?_, ?_⟩
  · rw [hcopy.inside p hp (contains_of_color? hcolor), copyPicture_eq hcolor]
  · rw [packed?_copyFrom ht hs hf htc hsc corner hp, if_pos hin]
  · exact (painted_convertFrom ht htc hsc corner).unique hcopy ht

/-- Only one pixel of the source lands on the targets, one of which has its format. -/
theorem copyFrom_pixel_by_pixel_of_corner :
    let source : Canvas := ⟨2, 2, .rgba4444, false, ⟨#[0, 0, 0xbc, 0x9a, 1, 2, 3, 4]⟩⟩
    let target : Canvas := ⟨3, 2, .rgba8888, false, Buffer.zeros 24⟩
    let like : Canvas := ⟨3, 2, .rgba4444, true, Buffer.zeros 12⟩
    target.Valid ∧ source.Valid ∧ like.Valid ∧ target.FitsCoordinates ∧ source.FitsCoordinates ∧
      like.FitsCoordinates ∧
      (target.copyFrom source ⟨-1, 1⟩).packed? ⟨0, 1⟩ = some 0xccbbaa99 ∧
      (target.copyFrom source ⟨-1, 1⟩).packed? ⟨1, 1⟩ = target.packed? ⟨1, 1⟩ ∧
      (like.copyFrom source ⟨-1, 1⟩).packed? ⟨0, 1⟩ = some 0x9abc ∧
      like.copyFrom source ⟨-1, 1⟩ = like.convertFrom source ⟨-1, 1⟩ := by
  intro source target like
  have ht : target.Valid := ⟨by decide, by decide, by decide⟩
  have hs : source.Valid := ⟨by decide, by decide, by decide⟩
  have hl : like.Valid := ⟨by decide, by decide, by decide⟩
  have htc : target.FitsCoordinates := ⟨by decide, by decide⟩
  have hsc : source.FitsCoordinates := ⟨by decide, by decide⟩
  have hlc : like.FitsCoordinates := ⟨by decide, by decide⟩
  obtain ⟨-, hinside, houtside, -, -⟩ := copyFrom_pixel_by_pixel ht hs htc hsc ⟨-1, 1⟩
  obtain ⟨-, -, -, hraw, hequal⟩ := copyFrom_pixel_by_pixel hl hs hlc hsc ⟨-1, 1⟩
  refine ⟨ht, hs, hl, htc, hsc, hlc, ?_, houtside _ (by decide), ?_, hequal⟩
  · exact hinside ⟨0, 1⟩ ⟨0x99, 0xaa, 0xbb, 0xcc⟩ (by decide) (by decide)
  · exact (hraw rfl ⟨0, 1⟩ (by decide) (by decide)).trans (by decide)

end Canvas

end Framecast
