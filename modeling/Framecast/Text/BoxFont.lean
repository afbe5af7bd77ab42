import Framecast.Number.Coordinate
import Framecast.Text.Blank
import Framecast.Text.Typesetter

/-!
# Box fonts

A typesetter that needs no font files. Every character that is not blank is an outlined box on the baseline, half as
wide as the font's size and as high as it. Blanks only move the pen, and all text runs from left to right.
-/

namespace Framecast

structure BoxFont where
  size : Nat
  style : FontStyle
  deriving DecidableEq

namespace BoxFont

def cellWidth (f : BoxFont) : Nat := max (f.size / 2) 1

def cellHeight (f : BoxFont) : Nat := max f.size 1

/-- The distance from one box to the next, in units of 1/64 pixel. -/
def advance (f : BoxFont) : Int := Coordinate.wrap ((f.cellWidth + 1) * 64)

/-- A font of any size but zero. -/
def load (name : String) (size : Nat) (style : FontStyle) : Except FontError BoxFont :=
  if size = 0 then .error (.zeroSize name) else .ok ⟨size, style⟩

def glyph (f : BoxFont) (c : Char) : Glyph Char where
  code := c
  left := 0
  top := Coordinate.wrap (-Coordinate.wrap (Coordinate.wrap f.cellHeight * 64))
  width := if Text.isBlank c then 0 else f.cellWidth
  height := if Text.isBlank c then 0 else f.cellHeight
  advanceX := f.advance
  advanceY := 0

def shape (f : BoxFont) (text : String) (_directionX _directionY : Int) : List (Glyph Char) :=
  text.toList.map f.glyph

/-- The box around a text. -/
def measure (f : BoxFont) (text : String) (_directionX _directionY : Int) : TextBounds :=
  let width := Coordinate.wrap (f.advance / 64 * Coordinate.wrap text.toList.length)
  let top := Coordinate.wrap (-Coordinate.wrap f.cellHeight)
  ⟨⟨0, 0⟩, ⟨0, top⟩, ⟨width, top⟩, ⟨width, 0⟩⟩

/-- Puts a color into a bitmap if its four bytes are there. -/
def putPixel (stride : Nat) (b : ByteArray) (column row : Nat) (c : Rgba) : ByteArray :=
  let index := row * stride + column * 4
  if index + 4 ≤ b.size then
    Buffer.put (Buffer.put (Buffer.put (Buffer.put b index c.r) (index + 1) c.g) (index + 2) c.b) (index + 3) c.a
  else b

/-- Puts a color at `count` pixels from the `index`-th on, in row-major order. -/
def putPixelsFrom (width stride : Nat) (color : (column row : Nat) → Rgba) :
    (count index : Nat) → ByteArray → ByteArray
  | 0, _, b => b
  | count + 1, index, b =>
    putPixelsFrom width stride color count (index + 1)
      (putPixel stride b (index % width) (index / width) (color (index % width) (index / width)))

def putPixels (width height stride : Nat) (color : (column row : Nat) → Rgba) (b : ByteArray) : ByteArray :=
  putPixelsFrom width stride color (width * height) 0 b

/-- The color of a pixel of a box: its outline is the foreground, its inside the background if there is any. -/
def glyphColor (width height : Nat) (colors : GlyphColors) (column row : Nat) : Rgba :=
  if column = 0 ∨ row = 0 ∨ column + 1 = width ∨ row + 1 = height then colors.foreground
  else if colors.background.a = 0 then colors.transparent
  else colors.background

/-- The color of a pixel of a halo: the outline made thicker by one pixel on both sides. -/
def haloColor (width height : Nat) (halo transparent : Rgba) (column row : Nat) : Rgba :=
  if 3 ≤ column ∧ 3 ≤ row ∧ column + 3 < width ∧ row + 3 < height then transparent else halo

def renderGlyph (g : Glyph Char) (stride : Nat) (colors : GlyphColors) (b : ByteArray) : ByteArray :=
  putPixels g.width g.height stride (glyphColor g.width g.height colors) b

def renderHalo (g : Glyph Char) (stride : Nat) (halo transparent : Rgba) (b : ByteArray) : ByteArray :=
  putPixels (g.width + 2) (g.height + 2) stride (haloColor (g.width + 2) (g.height + 2) halo transparent) b

@[simp] theorem size_putPixel (stride : Nat) (b : ByteArray) (column row : Nat) (c : Rgba) :
    (putPixel stride b column row c).size = b.size := by
  simp only [putPixel]
  split <;> simp only [Buffer.size_put]

theorem size_putPixelsFrom (width stride : Nat) (color : (column row : Nat) → Rgba) (count index : Nat)
    (b : ByteArray) : (putPixelsFrom width stride color count index b).size = b.size := by
  induction count generalizing index b with
  | zero => rfl
  | succ count ih => rw [putPixelsFrom, ih, size_putPixel]

/-- A font whose size is a coordinate has boxes of no great size. -/
theorem sized_glyph {f : BoxFont} (hfont : Coordinate.InRange f.size) (c : Char) : (f.glyph c).Sized := by
  obtain ⟨-, hfont⟩ := hfont
  rw [Coordinate.greatest] at hfont
  have hwidth : (f.glyph c).width + 2 ≤ 1073741825 := by
    simp only [glyph, cellWidth]
    split <;> omega
  have hheight : (f.glyph c).height + 2 ≤ 2147483649 := by
    simp only [glyph, cellHeight]
    split <;> omega
  have hbytes := Nat.mul_le_mul (Nat.mul_le_mul_right 4 hwidth) hheight
  exact ⟨by omega, by omega, by omega⟩

def typesetter : Typesetter BoxFont Char where
  load := load
  shape := shape
  measure := measure
  renderGlyph := renderGlyph
  renderHalo := renderHalo
  size_renderGlyph _ _ _ _ := size_putPixelsFrom ..
  size_renderHalo _ _ _ _ _ := size_putPixelsFrom ..

end BoxFont

end Framecast
