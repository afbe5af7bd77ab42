import Framecast.Bytes.Buffer
import Framecast.Text.Glyph
import Framecast.Text.Style

/-!
# Typesetters

A typesetter loads fonts, shapes texts into glyphs and renders their bitmaps. Everything that draws text is written
against this interface. Bitmaps are rows of colors, four bytes a pixel, and a renderer never changes the size of the
buffer that it is given.
-/

namespace Framecast

/-- Why a font cannot be loaded. -/
inductive FontError where
  | zeroSize (name : String)
  deriving DecidableEq

namespace FontError

/-- The text shown for the error. -/
def message : FontError → String
  | zeroSize name => s!"font '{name}' requested with zero size"

end FontError

/-- The corners of a measured text relative to its origin. -/
structure TextBounds where
  bottomLeft : Point
  topLeft : Point
  topRight : Point
  bottomRight : Point
  deriving DecidableEq

/-- What loads fonts, shapes texts and renders glyphs. A direction is a vector whose unit length is 0x10000. -/
structure Typesetter (Font Code : Type) where
  load : (name : String) → (size : Nat) → FontStyle → Except FontError Font
  shape : Font → String → (directionX directionY : Int) → List (Glyph Code)
  measure : Font → String → (directionX directionY : Int) → TextBounds
  /-- Renders a glyph into a bitmap of its size whose rows start every `stride` bytes. -/
  renderGlyph : Glyph Code → (stride : Nat) → GlyphColors → ByteArray → ByteArray
  /-- Renders the halo of a glyph into a bitmap two pixels wider and two pixels higher. -/
  renderHalo : Glyph Code → (stride : Nat) → (halo transparent : Rgba) → ByteArray → ByteArray
  size_renderGlyph : ∀ g stride colors b, (renderGlyph g stride colors b).size = b.size
  size_renderHalo : ∀ g stride halo transparent b, (renderHalo g stride halo transparent b).size = b.size

end Framecast
