/-!
# Points

A pixel position. It may lie outside every canvas; drawing clips it.
-/

namespace Framecast

/-- The pixel in column `x` and row `y`. -/
structure Point where
  x : Int
  y : Int
  deriving DecidableEq, Inhabited

namespace Point

/-- The point moved by `dx` columns and `dy` rows. -/
def offset (p : Point) (dx dy : Int) : Point := ⟨p.x + dx, p.y + dy⟩

end Point

end Framecast
