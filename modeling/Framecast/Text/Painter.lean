import Framecast.Canvas.Bitmap
import Framecast.Text.Typesetter

/-!
# Painting text

A run of glyphs is painted in two passes. With a background color every glyph's halo is copied to the canvas first;
then every glyph is, as an opaque copy with a background and painted over without one. The bitmaps are rendered in a
scratch buffer that only grows. `Scratch.lend` clears what it lends, so a bitmap never shows what was rendered
before it.
-/

namespace Framecast

/-- A buffer in which bitmaps are rendered, one after another. -/
structure Scratch where
  bytes : ByteArray

namespace Scratch

/-- The buffer that nothing was rendered in. -/
def empty : Scratch := ⟨ByteArray.empty⟩

/-- The number of bytes that the buffer has grown to. -/
def size (s : Scratch) : Nat := s.bytes.size

/-- The buffer grown to at least `count` bytes, with the first `count` of them zeroed. -/
def clear (s : Scratch) (count : Nat) : Scratch :=
  ⟨Buffer.fill 0 count 0 (s.bytes ++ Buffer.zeros (count - s.bytes.size))⟩

/-- Lends the first `count` bytes, all zero, to a renderer, and gives its bitmap. -/
def lend (s : Scratch) (count : Nat) (render : ByteArray → ByteArray) : ByteArray × Scratch :=
  let cleared := s.clear count
  let bitmap := render (cleared.bytes.extract 0 count)
  (bitmap, ⟨bitmap.copySlice 0 cleared.bytes 0 count⟩)

theorem size_clear (s : Scratch) (count : Nat) : (s.clear count).size = max s.size count := by
  simp only [clear, size, Buffer.size_fill, ByteArray.size_append, Buffer.size_zeros]
  omega

/-- Whatever was rendered before, what is lent is all zero. -/
theorem extract_clear (s : Scratch) (count : Nat) : (s.clear count).bytes.extract 0 count = Buffer.zeros count := by
  have hclear := s.size_clear count
  rw [size] at hclear
  refine ByteArray.ext_getElem ?_ fun i hi hi' => ?_
  · rw [ByteArray.size_extract, Buffer.size_zeros]
    omega
  · rw [Buffer.size_zeros] at hi'
    rw [← Buffer.byteAt_of_lt, ← Buffer.byteAt_of_lt, Buffer.byteAt_extract (by omega) (by omega), Buffer.byteAt_zeros,
      clear, Buffer.byteAt_fill, if_pos ⟨by omega, by rw [clear, Buffer.size_fill] at hclear; omega⟩]

theorem size_lent (s : Scratch) (count : Nat) : ((s.clear count).bytes.extract 0 count).size = count := by
  rw [s.extract_clear, Buffer.size_zeros]

end Scratch

namespace Typesetter

variable {Font Code : Type} (t : Typesetter Font Code)

/-- The halo of a glyph as a bitmap, with the scratch buffer that it was rendered in. -/
def haloBitmap (g : Glyph Code) (halo : Rgba) (s : Scratch) : Bitmap × Scratch :=
  let stride := g.haloWidth * 4
  let (bytes, s) := s.lend (Size.wrapBytes (stride * g.haloHeight)) (t.renderHalo g stride halo .transparent)
  (⟨g.haloWidth, g.haloHeight, stride, bytes⟩, s)

/-- A glyph as a bitmap, with the scratch buffer that it was rendered in. -/
def glyphBitmap (g : Glyph Code) (colors : GlyphColors) (s : Scratch) : Bitmap × Scratch :=
  let stride := g.width * 4
  let (bytes, s) := s.lend (Size.wrapBytes (stride * g.height)) (t.renderGlyph g stride colors)
  (⟨g.width, g.height, stride, bytes⟩, s)

def paintHalos (halo : Rgba) (placed : List (Glyph Code × Point)) (c : Canvas) (s : Scratch) : Canvas × Scratch :=
  placed.foldl (fun (c, s) (g, corner) =>
    let (bitmap, s) := t.haloBitmap g halo s
    (c.paste bitmap corner, s)) (c, s)

/-- Draws the bitmaps of placed glyphs on the canvas, each in the given way. -/
def paintGlyphs (draw : Canvas → Bitmap → Point → Canvas) (colors : GlyphColors) (placed : List (Glyph Code × Point))
    (c : Canvas) (s : Scratch) : Canvas × Scratch :=
  placed.foldl (fun (c, s) (g, corner) =>
    let (bitmap, s) := t.glyphBitmap g colors s
    (draw c bitmap corner, s)) (c, s)

/-- Paints a run of glyphs with the pen starting at a point. -/
def paintRun (run : List (Glyph Code)) (foreground : Rgba) (background : Option Rgba) (origin : Point) (c : Canvas)
    (s : Scratch) : Canvas × Scratch :=
  let (ink, halo) := textColors foreground background
  let colors : GlyphColors := ⟨ink, halo, .transparent⟩
  let placed := Glyph.place run (Glyph.penAt origin)
  match background with
  | none => t.paintGlyphs Canvas.pasteOver colors placed c s
  | some _ =>
    let (c, s) := t.paintHalos halo placed c s
    t.paintGlyphs Canvas.paste colors placed c s

end Typesetter

end Framecast
