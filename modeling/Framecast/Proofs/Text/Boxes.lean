import Framecast.Proofs.Canvas.Bitmaps
import Framecast.Proofs.Canvas.Export
import Framecast.Proofs.Canvas.Solid
import Framecast.Text.BoxFont
import Framecast.Text.Painter

/-!
# Boxes on a solid canvas

The inside of a halo is transparent, so that a text on a background first makes holes in the canvas. The holes lie
inside the boxes of the same glyphs, which are copied afterwards in solid colors: a text leaves a solid canvas solid.
-/

namespace Framecast

namespace BoxFont

open Buffer

/-! ## Bitmaps of boxes -/

theorem colorAt_putPixel {b : ByteArray} {stride column row : Nat} (h : row * stride + column * 4 + 4 ≤ b.size)
    (c : Rgba) : colorAt (putPixel stride b column row c) (row * stride + column * 4) = c := by
  have hput : putPixel stride b column row c = put (put (put (put b (row * stride + column * 4) c.r)
      (row * stride + column * 4 + 1) c.g) (row * stride + column * 4 + 2) c.b) (row * stride + column * 4 + 3) c.a :=
    if_pos h
  rw [hput]
  generalize row * stride + column * 4 = i at h ⊢
  have hsize : i < b.size ∧ i + 1 < b.size ∧ i + 2 < b.size ∧ i + 3 < b.size := by omega
  simp [colorAt, byteAt_put, hsize]

theorem byteAt_putPixel_of_lt (b : ByteArray) {stride column row i : Nat} (h : i < row * stride + column * 4)
    (c : Rgba) : byteAt (putPixel stride b column row c) i = byteAt b i := by
  simp only [putPixel]
  split
  · simp only [byteAt_put]
    rw [if_neg (by omega), if_neg (by omega), if_neg (by omega), if_neg (by omega)]
  · rfl

/-- In rows without padding the pixels follow each other. -/
theorem index_mul (width index : Nat) : index / width * (width * 4) + index % width * 4 = 4 * index := by
  have hdivision := Nat.div_add_mod' index width
  rw [← Nat.mul_assoc]
  omega

theorem byteAt_putPixelsFrom_of_lt {width : Nat} {color : (column row : Nat) → Rgba} (count : Nat) {index i : Nat}
    (h : i < 4 * index) (b : ByteArray) :
    byteAt (putPixelsFrom width (width * 4) color count index b) i = byteAt b i := by
  induction count generalizing index b with
  | zero => rfl
  | succ count ih =>
      rw [putPixelsFrom, ih (by omega), byteAt_putPixel_of_lt b (by rw [index_mul]; exact h)]

theorem colorAt_putPixelsFrom {width : Nat} {color : (column row : Nat) → Rgba} {count index j : Nat} {b : ByteArray}
    (hj : index ≤ j) (hj' : j < index + count) (hb : 4 * (index + count) ≤ b.size) :
    colorAt (putPixelsFrom width (width * 4) color count index b) (4 * j) = color (j % width) (j / width) := by
  induction count generalizing index b with
  | zero => omega
  | succ count ih =>
      rw [putPixelsFrom]
      rcases Nat.eq_or_lt_of_le hj with rfl | hlt
      · have hput := @colorAt_putPixel b (width * 4) (index % width) (index / width)
          (by rw [index_mul]; omega) (color (index % width) (index / width))
        rw [index_mul] at hput
        refine .trans (colorAt_congr fun k hk => ?_) hput
        exact byteAt_putPixelsFrom_of_lt count (by omega) _
      · exact ih (by omega) (by omega) (by rw [size_putPixel]; omega)

/-- A bitmap that is put together pixel by pixel shows every pixel. -/
theorem shows_putPixels {width height : Nat} {b : ByteArray} (hb : b.size = width * 4 * height)
    (color : (column row : Nat) → Rgba) :
    (⟨width, height, width * 4, putPixels width height (width * 4) color b⟩ : Bitmap).Shows color := by
  intro column row hcolumn hrow
  simp only at hcolumn hrow
  have hlast : row * width + width ≤ height * width := Canvas.mul_add_le_mul hrow
  have hcount : width * 4 * height = 4 * (width * height) := by rw [Nat.mul_comm width 4, Nat.mul_assoc]
  rw [Nat.mul_comm height] at hlast
  have hindex : row * (width * 4) + column * 4 = 4 * (row * width + column) := by
    rw [← Nat.mul_assoc]
    omega
  have hdiv : (row * width + column) / width = row := by
    rw [Nat.mul_comm, Nat.mul_add_div (by omega), Nat.div_eq_of_lt hcolumn, Nat.add_zero]
  have hmod : (row * width + column) % width = column := by rw [Nat.mul_add_mod', Nat.mod_eq_of_lt hcolumn]
  have hcolor := @colorAt_putPixelsFrom width color (width * height) 0 (row * width + column) b (Nat.zero_le _)
    (by omega) (by omega)
  rw [hmod, hdiv] at hcolor
  simp only [Bitmap.pixel?, hindex, putPixels, size_putPixelsFrom]
  rw [if_pos (by omega)]
  exact congrArg some hcolor

variable {g : Glyph Char} {colors : GlyphColors} {halo : Rgba} {s : Scratch}

theorem shows_glyphBitmap (hg : g.Sized) (colors : GlyphColors) (s : Scratch) :
    (typesetter.glyphBitmap g colors s).1.Shows (glyphColor g.width g.height colors) := by
  simp only [Typesetter.glyphBitmap, Scratch.lend, hg.wrapBytes_glyph]
  exact shows_putPixels (s.size_lent _) _

theorem shows_haloBitmap (hg : g.Sized) (halo : Rgba) (s : Scratch) :
    (typesetter.haloBitmap g halo s).1.Shows (haloColor (g.width + 2) (g.height + 2) halo .transparent) := by
  simp only [Typesetter.haloBitmap, Scratch.lend, hg.haloWidth_eq, hg.haloHeight_eq, Size.wrapBytes_of_lt hg.bytes_lt]
  exact shows_putPixels (s.size_lent _) _

/-! ## The two passes -/

/-- The colors that glyphs are rendered with on a background have full alpha. -/
structure SolidColors (colors : GlyphColors) : Prop where
  foreground : colors.foreground.a = 255
  background : colors.background.a = 255

theorem SolidColors.glyphColor (h : SolidColors colors) (width height column row : Nat) :
    (glyphColor width height colors column row).a = 255 := by
  have hbackground : colors.background.a ≠ 0 := by simp [h.background]
  simp only [BoxFont.glyphColor, if_neg hbackground]
  split
  · exact h.foreground
  · exact h.background

theorem textColors_solid {foreground background : Rgba} (hforeground : foreground.a = 255)
    (hbackground : background.a = 255) :
    SolidColors ⟨(textColors foreground (some background)).1, (textColors foreground (some background)).2,
      .transparent⟩ := by
  simp only [textColors]
  split
  · exact ⟨rfl, rfl⟩
  · split
    · exact ⟨rfl, rfl⟩
    · exact ⟨hforeground, hbackground⟩

/-- The box of a glyph lies on a point when its top-left corner lies on another. -/
def Boxed (q : Glyph Char × Point) (p : Point) : Prop :=
  (0 ≤ (p.seenFrom q.2).x ∧ (p.seenFrom q.2).x < q.1.width) ∧
    0 ≤ (p.seenFrom q.2).y ∧ (p.seenFrom q.2).y < q.1.height

/-- What is transparent of a halo lies inside the box of its glyph. -/
theorem haloColor_of_not_boxed {q : Glyph Char × Point} {p : Point} (hp : ¬ Boxed q p) (halo : Rgba) :
    haloColor (q.1.width + 2) (q.1.height + 2) halo .transparent (p.seenFrom q.2).x.toNat (p.seenFrom q.2).y.toNat =
      halo := by
  rw [Boxed] at hp
  exact if_neg (by omega)

end BoxFont

namespace Canvas.SolidOutside

open BoxFont

variable {c : Canvas} {format : PixelFormat} {holes : Point → Prop} {placed : List (Glyph Char × Point)} {s : Scratch}

theorem paintHalos (hplaced : ∀ q ∈ placed, q.1.Sized) {halo : Rgba} (hhalo : halo.a = 255)
    (h : c.SolidOutside format fun p => ∃ q ∈ placed, Boxed q p) :
    (typesetter.paintHalos halo placed c s).1.SolidOutside format fun p => ∃ q ∈ placed, Boxed q p := by
  refine List.foldlRecOn (motive := fun r : Canvas × Scratch =>
    r.1.SolidOutside format fun p => ∃ q ∈ placed, Boxed q p) placed _ h fun r hr q hq => ?_
  have hshows := shows_haloBitmap (hplaced q hq) halo r.2
  refine hr.painted (painted_paste hr.valid hshows q.2) (fun p hp hcovers => ?_) fun p hp _ => hp
  rw [bitmapPicture, hr.format_eq, haloColor_of_not_boxed fun hbox => hp ⟨q, hq, hbox⟩]
  exact (format.solid_pack hhalo).alpha_eq

/-- Every glyph closes what lies in its box. -/
theorem pasteGlyphs (hplaced : ∀ q ∈ placed, q.1.Sized) {colors : GlyphColors} (hcolors : SolidColors colors)
    (h : c.SolidOutside format fun p => ∃ q ∈ placed, Boxed q p) :
    (typesetter.paintGlyphs Canvas.paste colors placed c s).1.SolidOutside format fun _ => False := by
  induction placed generalizing c s with
  | nil => exact ⟨h.valid, h.format_eq, fun p color _ => h.alpha_eq p color (by simp)⟩
  | cons q rest ih =>
      obtain ⟨hfirst, hrest⟩ := List.forall_mem_cons.mp hplaced
      have hshows := shows_glyphBitmap hfirst colors s
      refine ih hrest (h.painted (painted_paste h.valid hshows q.2) (fun p _ _ => ?_) ?_)
      · rw [bitmapPicture, h.format_eq]
        exact (format.solid_pack (hcolors.glyphColor _ _ _ _)).alpha_eq
      · rintro p hp hcovers ⟨q', hq', hbox⟩
        rcases List.mem_cons.mp hq' with rfl | hmem
        · exact hcovers hbox
        · exact hp ⟨q', hmem, hbox⟩

theorem paintOverGlyphs (h : c.SolidOutside format holes) (colors : GlyphColors) :
    (typesetter.paintGlyphs Canvas.pasteOver colors placed c s).1.SolidOutside format holes :=
  List.foldlRecOn (motive := fun r : Canvas × Scratch => r.1.SolidOutside format holes) placed _ h
    fun _ hr _ _ => hr.pasteOver _ _

theorem paintRun (h : c.SolidOutside format fun _ => False) {foreground : Rgba} {background : Option Rgba}
    (hforeground : foreground.a = 255) (hbackground : ∀ b ∈ background, b.a = 255) {run : List (Glyph Char)}
    (hrun : background.isSome → ∀ g ∈ run, g.Sized) (origin : Point) :
    (typesetter.paintRun run foreground background origin c s).1.SolidOutside format fun _ => False := by
  cases background with
  | none => exact h.paintOverGlyphs _
  | some b =>
      have hcolors := textColors_solid hforeground (hbackground b rfl)
      have hplaced : ∀ q ∈ Glyph.place run (Glyph.penAt origin), q.1.Sized := fun q hq =>
        hrun rfl q.1 (Glyph.mem_of_mem_place hq).1
      refine pasteGlyphs hplaced hcolors (paintHalos hplaced hcolors.background ?_)
      exact ⟨h.valid, h.format_eq, fun p color _ => h.alpha_eq p color not_false⟩

end Canvas.SolidOutside

end Framecast
