import Framecast.Color.Rgba
import Framecast.Geometry.Point
import Framecast.Number.Coordinate
import Framecast.Number.Size

/-!
# Glyphs

A shaped text is a list of glyphs. Each says where its bitmap lies relative to the pen and how far it moves the pen,
both in units of 1/64 pixel. `Glyph.place` walks the pen over a run and keeps the glyphs that leave a mark, each with
the pixel of its top-left corner. The pen and the sizes of bitmaps are machine numbers, which wrap around.
-/

namespace Framecast

/-- One glyph of a shaped text; offsets and advances are in units of 1/64 pixel. -/
structure Glyph (Code : Type) where
  code : Code
  left : Int
  /-- The top edge of the bitmap relative to the pen. -/
  top : Int
  width : Nat
  height : Nat
  /-- How far the glyph moves the pen to the right. -/
  advanceX : Int
  /-- How far the glyph moves the pen down. -/
  advanceY : Int

/-- The colors that a glyph is rendered with. -/
structure GlyphColors where
  foreground : Rgba
  background : Rgba
  transparent : Rgba
  deriving DecidableEq

namespace Glyph

/-- The glyph leaves no mark. -/
def isBlank (g : Glyph Code) : Bool := g.width == 0 || g.height == 0

/-- The pen at a pixel, in units of 1/64 pixel. -/
def penAt (origin : Point) : Point := ⟨Coordinate.wrap (origin.x * 64), Coordinate.wrap (origin.y * 64)⟩

/-- The pixel of the top-left corner of a glyph's bitmap. -/
def corner (g : Glyph Code) (pen : Point) : Point :=
  ⟨Coordinate.wrap (pen.x + g.left) / 64, Coordinate.wrap (pen.y + g.top) / 64⟩

/-- The pen behind a glyph. -/
def advance (g : Glyph Code) (pen : Point) : Point :=
  ⟨Coordinate.wrap (pen.x + g.advanceX), Coordinate.wrap (pen.y + g.advanceY)⟩

/-- The halo of a glyph is two pixels wider than the glyph. -/
def haloWidth (g : Glyph Code) : Nat := Size.wrapSide (g.width + 2)

def haloHeight (g : Glyph Code) : Nat := Size.wrapSide (g.height + 2)

/-- No size of the glyph's bitmap or of its halo wraps around. -/
structure Sized (g : Glyph Code) : Prop where
  width_lt : g.width + 2 < 4294967296
  height_lt : g.height + 2 < 4294967296
  bytes_lt : (g.width + 2) * 4 * (g.height + 2) < 18446744073709551616

instance (g : Glyph Code) : Decidable g.Sized :=
  decidable_of_iff (_ ∧ _ ∧ _) ⟨fun h => ⟨h.1, h.2.1, h.2.2⟩, fun h => ⟨h.1, h.2, h.3⟩⟩

/-- The glyphs of a run that leave a mark, with their corners, for a pen that starts at a point. -/
def place : List (Glyph Code) → Point → List (Glyph Code × Point)
  | [], _ => []
  | g :: rest, pen =>
    if g.isBlank then place rest (g.advance pen) else (g, g.corner pen) :: place rest (g.advance pen)

theorem Sized.haloWidth_eq {g : Glyph Code} (h : g.Sized) : g.haloWidth = g.width + 2 := Size.wrapSide_of_lt h.width_lt

theorem Sized.haloHeight_eq {g : Glyph Code} (h : g.Sized) : g.haloHeight = g.height + 2 :=
  Size.wrapSide_of_lt h.height_lt

theorem Sized.wrapBytes_glyph {g : Glyph Code} (h : g.Sized) :
    Size.wrapBytes (g.width * 4 * g.height) = g.width * 4 * g.height := by
  refine Size.wrapBytes_of_lt (Nat.lt_of_le_of_lt (Nat.mul_le_mul ?_ ?_) h.bytes_lt) <;> omega

theorem map_fst_place (run : List (Glyph Code)) (pen : Point) :
    (place run pen).map Prod.fst = run.filter fun g => !g.isBlank := by
  induction run generalizing pen with
  | nil => rfl
  | cons g rest ih =>
      rw [place, List.filter_cons]
      cases g.isBlank with
      | true => exact ih _
      | false => exact congrArg _ (ih _)

theorem mem_of_mem_place {run : List (Glyph Code)} {pen : Point} {q : Glyph Code × Point} (hq : q ∈ place run pen) :
    q.1 ∈ run ∧ q.1.isBlank = false := by
  have hmem := List.mem_map_of_mem (f := Prod.fst) hq
  rw [map_fst_place, List.mem_filter] at hmem
  exact ⟨hmem.1, by simpa using hmem.2⟩

end Glyph

/-- The colors of a text and of its halo. White on black and black on white trade places, so that the smoothed edges
meet the other polarity; without a background the halo is transparent. -/
def textColors (foreground : Rgba) : Option Rgba → Rgba × Rgba
  | none => (foreground, .transparent)
  | some background =>
    if foreground.isWhite && background.isBlack then (.black, .white)
    else if foreground.isBlack && background.isWhite then (.white, .black)
    else (foreground, background)

end Framecast
