import Framecast.Geometry.Point
import Framecast.Number.Coordinate

/-!
# Strokes

A polyline drawn with a pen of some width becomes a list of simpler pieces. A pen of one pixel draws plain lines. A
wider pen turns each segment into a quadrilateral that straddles it, and a pen wider than two adds a round cap at
every vertex.
-/

namespace Framecast

/-- The four corners of a stroked segment: two beside its start, then two beside its end. -/
structure Quad where
  a : Point
  b : Point
  c : Point
  d : Point
  deriving DecidableEq

namespace Quad

def corners (q : Quad) : List Point := [q.a, q.b, q.c, q.d]

end Quad

/-- One piece of a stroked polyline. -/
inductive StrokePiece where
  | line (source target : Point)
  | quad (corners : Quad)
  | cap (center : Point) (radius : Int)
  deriving DecidableEq

namespace Stroke

/-- Half the pen width, rounded up. -/
def halfWidth (width : Nat) : Int := Coordinate.saturate ((width + 1) / 2 : Nat)

/-- The distance of the corners from a slanted segment, in columns and rows, from the slope's angle. -/
def slantedOffset (dx dy : Nat) (width : Nat) : Int × Int :=
  let half := Float.ofNat width / 2.0
  let angle := 1.5707963267948966 - Float.atan (Float.ofNat dx / Float.ofNat dy)
  ((Float.round (Float.sin angle * half)).toInt32.toInt, (Float.round (Float.cos angle * half)).toInt32.toInt)

/-- The distance of the corners from a segment, without the sign of its direction. -/
def plainOffset (source target : Point) (width : Nat) : Int × Int :=
  if target.y = source.y then (0, halfWidth width)
  else if target.x = source.x then (halfWidth width, 0)
  else slantedOffset (target.x - source.x).natAbs (target.y - source.y).natAbs width

/-- The distance of the corners from a segment, turned by its direction of travel. -/
def offset (source target : Point) (width : Nat) : Int × Int :=
  let (x, y) := plainOffset source target width
  (if source.x < target.x then -x else x, if source.y < target.y then -y else y)

/-- The quadrilateral that covers a segment drawn with a pen of some width. -/
def segmentQuad (source target : Point) (width : Nat) : Quad :=
  let (x, y) := offset source target width
  ⟨source.offset x (-y), source.offset (-x) y, target.offset (-x) y, target.offset x (-y)⟩

/-- The radius of a round cap. -/
def capRadius (width : Nat) : Int := (width / 2 : Nat)

/-- The pieces of one segment; only the first segment gets a cap at its start. -/
def segmentPieces (first : Bool) (source target : Point) (width : Nat) : List StrokePiece :=
  if width ≤ 1 then [.line source target]
  else
    .quad (segmentQuad source target width) ::
      (if 2 < width then
        (if first then [.cap source (capRadius width)] else []) ++ [.cap target (capRadius width)]
      else [])

/-- The pieces of the segments through the points, `first` telling whether the stroke starts here. -/
def planFrom (width : Nat) : (first : Bool) → List Point → List StrokePiece
  | first, source :: target :: rest =>
    segmentPieces first source target width ++ planFrom width false (target :: rest)
  | _, _ => []

/-- The pieces that draw the polyline through the points with a pen of some width. -/
def plan (points : List Point) (width : Nat) : List StrokePiece := planFrom width true points

end Stroke

end Framecast
