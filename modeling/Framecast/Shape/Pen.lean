import Framecast.Canvas.Bitmap
import Framecast.Shape.Disc
import Framecast.Shape.Polygon
import Framecast.Shape.Stroke

/-!
# Pens

A pen holds the colors and the width that shapes are drawn with. Drawing with a pen picks the plain or the smooth
form of a shape by the canvas, and draws a polyline as the pieces of its stroke.
-/

namespace Framecast

/-- The drawing state that a caller hands to each shape. -/
structure Pen where
  foreground : Rgba
  background : Rgba
  width : Nat
  deriving DecidableEq

namespace Pen

/-- Transparent colors and a width of one pixel. -/
def default : Pen := ⟨.transparent, .transparent, 1⟩

def withForeground (p : Pen) (c : DeepColor) : Pen := { p with foreground := c.toRgba }

def withBackground (p : Pen) (c : DeepColor) : Pen := { p with background := c.toRgba }

/-- The pen with another width, at least one. -/
def withWidth (p : Pen) (width : Nat) : Pen := { p with width := max width 1 }

/-- A dash pattern is taken and has no effect: every stroke is solid. -/
def withDashes (p : Pen) (_width : Nat) (_offset : Int) (_pattern : List UInt8) : Pen := p

def disc (p : Pen) (c : Canvas) (center : Point) (radius : Int) : Canvas :=
  if c.antialias then c.fillSmoothDisc center radius p.foreground else c.fillDisc center radius p.foreground

def polygon (p : Pen) (c : Canvas) (points : List Point) : Canvas :=
  if c.antialias then c.fillSmoothPolygon points p.foreground else c.fillPolygon points p.foreground

def line (p : Pen) (c : Canvas) (a b : Point) : Canvas :=
  if c.antialias then c.drawSmoothLine a b p.foreground else c.drawLine a b p.foreground

def rectangle (p : Pen) (c : Canvas) (corner : Point) (width height : Nat) : Canvas :=
  c.putRect corner width height (c.format.pack p.foreground)

/-- Draws one piece of a stroke; `radius` turns the radius of a cap into the one drawn. -/
def piece (p : Pen) (radius : Int → Int) (c : Canvas) : StrokePiece → Canvas
  | .line a b => p.line c a b
  | .quad q => p.polygon c q.corners
  | .cap center r => p.disc c center (radius r)

/-- Draws the polyline through the points at the pen's width. -/
def polyline (p : Pen) (radius : Int → Int) (c : Canvas) (points : List Point) : Canvas :=
  (Stroke.plan points p.width).foldl (p.piece radius) c

end Pen

end Framecast
