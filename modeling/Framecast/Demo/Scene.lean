import Framecast.Display
import Framecast.Text.BoxFont

/-!
# The demonstration scene

A road under a sky, a cross that follows the pointer, a line of text and a compass on an overlay. Events move the
pointer, zoom and resize; the scene is drawn again after each of them.
-/

namespace Framecast.Demo

/-- What is drawn. -/
structure Scene where
  width : Nat
  height : Nat
  pointer : Point
  zoom : Int
  compass : Option Handle
  /-- The scene changed since it was drawn. -/
  changed : Bool

def solidPen (r g b : UInt16) : Pen := Pen.default.withForeground ⟨r, g, b, 0xffff⟩

/-- The unit length of a text direction. -/
def unitLength : Int := 0x10000

namespace Scene

def sky : Pen := solidPen 0x2000 0x4000 0x8000

/-- The pen of the road, wider as the scene is nearer. -/
def road (s : Scene) : Pen := (solidPen 0xffff 0xc000 0).withWidth (3 + (max 0 (min s.zoom 8)).toNat)

/-- The pen of the cross, the text and the compass. -/
def bright : Pen := solidPen 0xffff 0xffff 0xffff

/-- The pen of the ground under the text. -/
def shade : Pen := solidPen 0x1000 0x1000 0x1000

def needle : Pen := solidPen 0xffff 0 0

def roadPoints (s : Scene) : List Point :=
  let w := Coordinate.wrap s.width
  let h := Coordinate.wrap s.height
  [⟨0, h.tdiv 2⟩, ⟨w.tdiv 3, h.tdiv 3⟩, ⟨w, h.tdiv 2⟩]

/-- The two strokes of the cross. -/
def cross (p : Point) : List (List Point) :=
  [[⟨Coordinate.wrap (p.x - 5), p.y⟩, ⟨Coordinate.wrap (p.x + 5), p.y⟩],
    [⟨p.x, Coordinate.wrap (p.y - 5)⟩, ⟨p.x, Coordinate.wrap (p.y + 5)⟩]]

/-- Does one thing after another to a display until one is refused. -/
def inTurn : List (Display → Reply Unit Display) → Display → Reply Unit Display
  | [], d => (.ok (), d)
  | f :: rest, d =>
    match f d with
    | (.error e, d) => (.error e, d)
    | (.ok (), d) => inTurn rest d

def drawCompass (h : Handle) : List (Display → Reply Unit Display) :=
  [fun d => d.drawDisc (.overlay h) bright ⟨20, 20⟩ 36,
    fun d => d.drawPolygon (.overlay h) needle [⟨20, 4⟩, ⟨25, 20⟩, ⟨15, 20⟩]]

/-- The steps of drawing one frame. -/
def frame (s : Scene) (font : BoxFont) : List (Display → Reply Unit Display) :=
  [fun d => d.setMode .root .begun,
    fun d => d.drawRectangle .root sky ⟨0, 0⟩ s.width s.height,
    fun d => d.drawLines .root s.road s.roadPoints]
  ++ (cross s.pointer).map (fun points d => d.drawLines .root bright points)
  ++ [fun d => d.drawText BoxFont.typesetter .root bright (some shade) font s!"zoom {s.zoom}"
      ⟨4, Coordinate.wrap (Coordinate.wrap s.height - 4)⟩ unitLength 0]
  ++ (s.compass.map drawCompass).getD []
  ++ [fun d => d.setMode .root .ended]

/-- Draws one frame and publishes it. -/
def render (s : Scene) (font : BoxFont) (d : Display) : Reply Unit Display := inTurn (s.frame font) d

/-- The scene after an event, or none if the program has to end. -/
def update (s : Scene) : HostEvent → Option Scene
  | .resized width height => some { s with width, height, changed := true }
  | .pointerMoved p => some { s with pointer := p, changed := true }
  | .pointerButton _ _ p => some { s with pointer := p, changed := true }
  | .keyPressed .zoomIn => some { s with zoom := Coordinate.wrap (s.zoom + 1), changed := true }
  | .keyPressed .zoomOut => some { s with zoom := Coordinate.wrap (s.zoom - 1), changed := true }
  | .keyPressed _ => some { s with changed := true }
  | .quit => none
  | .resizeFailed .. => none

end Scene

end Framecast.Demo
