import Framecast.Canvas.Basic

/-!
# Discs

A plain disc is filled with horizontal spans while the rim is walked over one octant: each step gives a wide span
for the row at the step's height and a narrow one for the row at the step's reach. A smooth disc covers each pixel
by how far its centre lies inside the rim.
-/

namespace Framecast

/-- A place on the rim of a disc: how far it reaches, at which height, and the error of the walk. -/
structure RimStep where
  reach : Int
  height : Int
  error : Int

namespace RimStep

/-- Where the walk around a rim starts. -/
def start (radius : Int) : RimStep := ⟨radius, 0, 1 - radius⟩

/-- The place one row further. -/
def next (s : RimStep) : RimStep :=
  let height := s.height + 1
  if s.error < 0 then ⟨s.reach, height, s.error + (2 * height + 1)⟩
  else ⟨s.reach - 1, height, s.error + (2 * (height - (s.reach - 1)) + 1)⟩

/-- Fills the rows that a place on the rim bounds, in all octants. -/
def fill (s : RimStep) (c : Canvas) (center : Point) (value : Nat) : Canvas :=
  let wide (c : Canvas) (y : Int) := c.putRow (center.x - s.reach) (center.x + s.reach) y value
  let narrow (c : Canvas) (y : Int) := c.putRow (center.x - s.height) (center.x + s.height) y value
  let c := wide c (center.y + s.height)
  let c := if s.height = 0 then c else wide c (center.y - s.height)
  if s.reach = s.height then c
  else
    let c := narrow c (center.y + s.reach)
    if s.height = 0 then c else narrow c (center.y - s.reach)

/-- Fills along the walk until the height passes the reach, over at most `steps` places. -/
def fillFrom (center : Point) (value : Nat) : (steps : Nat) → RimStep → Canvas → Canvas
  | 0, _, c => c
  | steps + 1, s, c => if s.reach < s.height then c else fillFrom center value steps s.next (s.fill c center value)

end RimStep

namespace Canvas

/-- Fills a disc; a negative radius gives nothing and radius zero one pixel. -/
def fillDisc (c : Canvas) (center : Point) (radius : Int) (color : Rgba) : Canvas :=
  if radius < 0 then c
  else
    let value := c.format.pack color
    if radius = 0 then c.put center value
    else RimStep.fillFrom center value (radius.toNat + 1) (.start radius) c

/-- How much of the pixel `dx` columns and `dy` rows from the centre a disc covers; above one for inner pixels. -/
def discCoverage (radius dx dy : Int) : Single :=
  let x := Single.ofInt dx
  let y := Single.ofInt dy
  let distance := Single.sqrt (Single.add (Single.mul x x) (Single.mul y y))
  Single.sub (Single.add (Single.ofInt radius) Single.half) distance

/-- Fills a disc with a smooth rim. -/
def fillSmoothDisc (c : Canvas) (center : Point) (radius : Int) (color : Rgba) : Canvas :=
  if radius < 0 then c
  else
    let value := c.format.pack color
    let reach := radius + 1
    let rows := Span.clip ⟨center.y - reach, center.y + reach⟩ 0 c.lastRow
    let columns := Span.clip ⟨center.x - reach, center.x + reach⟩ 0 c.lastColumn
    rows.fold (fun c y =>
      columns.fold (fun c x =>
        let coverage := discCoverage radius (x - center.x) (y - center.y)
        if 1 ≤ coverage then c.put ⟨x, y⟩ value
        else if 0 < coverage then c.blend ⟨x, y⟩ (color.withCoverage (.finite coverage))
        else c) c) c

end Canvas

end Framecast
