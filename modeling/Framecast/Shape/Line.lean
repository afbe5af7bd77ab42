import Framecast.Canvas.Basic

/-!
# Lines

A plain line is one pixel wide and holds both ends. It is walked from end to end with an integer error term; the
walk stops early once it has passed the far side of the canvas, because it never turns back. A smooth line moves
along its longer direction and shares each step between the two pixels nearest to it.
-/

namespace Framecast

namespace Canvas

/-- Both ends lie beyond the same side of the canvas. -/
def missesSegment (c : Canvas) (a b : Point) : Bool :=
  let w := Coordinate.wrap c.width
  let h := Coordinate.wrap c.height
  (a.x < 0 && b.x < 0) || (a.y < 0 && b.y < 0) || (w ≤ a.x && w ≤ b.x) || (h ≤ a.y && h ≤ b.y)

end Canvas

/-- What stays fixed while a line is walked: its end, the steps of the two directions and the visible size. -/
structure LineWalk where
  target : Point
  /-- The distance to cover in columns. -/
  across : Int
  /-- The distance to cover in rows, negated. -/
  down : Int
  stepX : Int
  stepY : Int
  width : Int
  height : Int

namespace LineWalk

/-- The walk between two points on a canvas. -/
def between (c : Canvas) (source target : Point) : LineWalk where
  target := target
  across := (target.x - source.x).natAbs
  down := -((target.y - source.y).natAbs : Int)
  stepX := if source.x < target.x then 1 else -1
  stepY := if source.y < target.y then 1 else -1
  width := Coordinate.wrap c.width
  height := Coordinate.wrap c.height

/-- The number of steps from end to end. -/
def length (w : LineWalk) : Nat := (max w.across (-w.down)).toNat

/-- The next point and error term. -/
def advance (w : LineWalk) (p : Point) (error : Int) : Point × Int :=
  let moveX := w.down ≤ 2 * error
  let moveY := 2 * error ≤ w.across
  (⟨if moveX then p.x + w.stepX else p.x, if moveY then p.y + w.stepY else p.y⟩,
    error + (if moveX then w.down else 0) + (if moveY then w.across else 0))

/-- The point lies past the side of the canvas that the walk moves towards. -/
def hasPassed (w : LineWalk) (p : Point) : Bool :=
  (0 < w.stepX && w.width ≤ p.x) || (w.stepX < 0 && p.x < 0) ||
    (0 < w.stepY && w.height ≤ p.y) || (w.stepY < 0 && p.y < 0)

/-- Folds over the points of the walk, at most `steps` of them after the first. -/
def foldFrom (w : LineWalk) (f : α → Point → α) : (steps : Nat) → Point → (error : Int) → α → α
  | 0, p, _, acc => f acc p
  | steps + 1, p, error, acc =>
    let acc := f acc p
    if p = w.target then acc
    else
      let (next, error) := w.advance p error
      if w.hasPassed next then acc else foldFrom w f steps next error acc

/-- Folds over the points of the walk from its start. -/
def fold (w : LineWalk) (source : Point) (f : α → Point → α) (init : α) : α :=
  w.foldFrom f w.length source (w.across + w.down) init

theorem foldFrom_preserves (w : LineWalk) {p : α → Prop} {f : α → Point → α} (h : ∀ a q, p a → p (f a q))
    (steps : Nat) (q : Point) (error : Int) {acc : α} (hacc : p acc) : p (w.foldFrom f steps q error acc) := by
  induction steps generalizing q error acc with
  | zero => exact h _ _ hacc
  | succ steps ih =>
      simp only [foldFrom]
      split
      · exact h _ _ hacc
      · split
        · exact h _ _ hacc
        · exact ih _ _ (h _ _ hacc)

/-- What holds at the start and is kept at every point holds at the end of a walk. -/
theorem fold_preserves (w : LineWalk) {p : α → Prop} {f : α → Point → α} (h : ∀ a q, p a → p (f a q))
    (source : Point) {init : α} (hinit : p init) : p (w.fold source f init) :=
  w.foldFrom_preserves h _ _ _ hinit

end LineWalk

/-- A line seen along its longer direction: where it starts and ends there, and how it rises. -/
structure SmoothLine where
  steep : Bool
  start : Single
  stop : Single
  base : Single
  gradient : Single

namespace SmoothLine

/-- The line between two points, from the smaller coordinate to the greater; none if both ends round to one point. -/
def between? (a b : Point) : Option SmoothLine :=
  let x₀ := Single.ofInt a.x
  let y₀ := Single.ofInt a.y
  let x₁ := Single.ofInt b.x
  let y₁ := Single.ofInt b.y
  let steep : Bool := Single.abs (Single.sub x₁ x₀) < Single.abs (Single.sub y₁ y₀)
  let (m₀, n₀, m₁, n₁) := if steep then (y₀, x₀, y₁, x₁) else (x₀, y₀, x₁, y₁)
  let (m₀, n₀, m₁, n₁) := if m₁ < m₀ then (m₁, n₁, m₀, n₀) else (m₀, n₀, m₁, n₁)
  let length := Single.sub m₁ m₀
  if length = 0 then none else some ⟨steep, m₀, m₁, n₀, Single.div (Single.sub n₁ n₀) length⟩

/-- The pixel at a place along the longer direction and across it. -/
def point (l : SmoothLine) (along across : Int) : Point := if l.steep then ⟨across, along⟩ else ⟨along, across⟩

/-- Paints one step: the nearer pixel above and, unless the line runs through its centre, the one below. -/
def plot (l : SmoothLine) (color : Rgba) (c : Canvas) (along : Int) (height : Single) : Canvas :=
  let whole := Dyad.floor height
  let part := Single.sub height whole
  let row := Coordinate.saturate whole
  let c := c.blend (l.point along row) (color.withCoverage (.finite (Single.sub 1 part)))
  if 0 < part then c.blend (l.point along (row + 1)) (color.withCoverage (.finite part)) else c

end SmoothLine

namespace Canvas

/-- Draws a line one pixel wide through both points. -/
def drawLine (c : Canvas) (a b : Point) (color : Rgba) : Canvas :=
  if c.missesSegment a b then c
  else
    let value := c.format.pack color
    (LineWalk.between c a b).fold a (fun c p => c.put p value) c

/-- Draws a line with smooth edges; every pixel is painted with the share that the line covers. -/
def drawSmoothLine (c : Canvas) (a b : Point) (color : Rgba) : Canvas :=
  if c.missesSegment a b then c
  else if a = b then c.blend a color
  else
    match SmoothLine.between? a b with
    | none => c
    | some l =>
      let last := if l.steep then c.lastRow else c.lastColumn
      let first := max (Coordinate.saturate (Dyad.floor l.start)) 0
      let steps : Span := ⟨first, min (Coordinate.saturate (Dyad.floor l.stop)) last⟩
      let height := Single.add l.base (Single.mul l.gradient (Single.sub (Single.ofInt first) l.start))
      (steps.fold (fun (c, height) along => (l.plot color c along height, Single.add height l.gradient))
        (c, height)).1

end Canvas

end Framecast
