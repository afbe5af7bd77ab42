import Framecast.Shape.Line

/-!
# Polygons

A closed polygon is filled row by row with the even-odd rule: the edges that cross the middle of a row are found,
their crossings sorted and taken in pairs, and each pair gives the pixels whose centres lie between its two
crossings. An edge counts its lower end and not its upper one, so a vertex on a row is never counted twice.
-/

namespace Framecast

namespace Polygon

/-- The edges of the closed polygon, the closing one last. -/
def edges : List Point → List (Point × Point)
  | [] => []
  | p :: rest => (p :: rest).zip (rest ++ [p])

/-- The vertical middle of a row. -/
def middle (y : Int) : Single := Single.add (Single.ofInt y) Single.half

/-- The edge passes the middle of a row, in either direction. -/
def crosses (mid : Single) (a b : Point) : Bool :=
  let y₀ := Single.ofInt a.y
  let y₁ := Single.ofInt b.y
  (y₀ ≤ mid && mid < y₁) || (y₁ ≤ mid && mid < y₀)

/-- Where an edge passes the middle of a row. -/
def crossing (mid : Single) (a b : Point) : Single :=
  let y₀ := Single.ofInt a.y
  let share := Single.div (Single.sub mid y₀) (Single.sub (Single.ofInt b.y) y₀)
  Single.add (Single.ofInt a.x) (Single.mul share (Single.ofInt (b.x - a.x)))

/-- The crossings of all edges with a row, in the order of the edges. -/
def crossings (points : List Point) (y : Int) : List Single :=
  ((edges points).filter (fun e => crosses (middle y) e.1 e.2)).map (fun e => crossing (middle y) e.1 e.2)

/-- Consecutive elements taken two by two; a last odd one is dropped. -/
def pairs : List α → List (α × α)
  | a :: b :: rest => (a, b) :: pairs rest
  | _ => []

/-- The columns whose centres lie from one crossing up to another. -/
def columnsBetween (left right : Single) : Span :=
  ⟨Coordinate.saturate (Dyad.ceil (Single.sub left Single.half)),
    Coordinate.saturate (Dyad.ceil (Single.sub right Single.half)) - 1⟩

/-- The spans of one row that lie inside the polygon. -/
def rowSpans (points : List Point) (y : Int) : List Span :=
  (pairs ((crossings points y).mergeSort (fun a b => a ≤ b))).map (fun p => columnsBetween p.1 p.2)

/-- The rows from the highest vertex to the lowest. -/
def rows (points : List Point) : Span :=
  match points with
  | [] => ⟨0, 0⟩
  | p :: rest => ⟨rest.foldl (fun m q => min m q.y) p.y, rest.foldl (fun m q => max m q.y) p.y⟩

end Polygon

namespace Canvas

/-- Fills the closed polygon through the points; fewer than three points give nothing. -/
def fillPolygon (c : Canvas) (points : List Point) (color : Rgba) : Canvas :=
  if points.length < 3 then c
  else
    let value := c.format.pack color
    ((Polygon.rows points).clip 0 c.lastRow).fold (fun c y =>
      (Polygon.rowSpans points y).foldl (fun c s => if s.first ≤ s.last then c.putRow s.first s.last y value else c)
        c) c

/-- Fills the closed polygon and draws a smooth line along every edge. -/
def fillSmoothPolygon (c : Canvas) (points : List Point) (color : Rgba) : Canvas :=
  let c := c.fillPolygon points color
  if points.length < 2 then c
  else (Polygon.edges points).foldl (fun c e => c.drawSmoothLine e.1 e.2 color) c

end Canvas

end Framecast
