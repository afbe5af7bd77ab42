import Framecast.Display
import Framecast.Proofs.Shape.Discs
import Framecast.Proofs.Shape.Polygons

/-!
# Upright and level strokes

On a canvas with plain edges a polyline of upright and level segments is stroked exactly: each segment covers a box
that straddles it, and a pen wider than two adds a disc at every vertex. `painted_drawLines` says which pixels of the
root are overwritten; all others stay.
-/

namespace Framecast

open Single Framecast.Polygon

def Point.Modest (p : Point) : Prop := p.x.natAbs ≤ 2097152 ∧ p.y.natAbs ≤ 2097152

namespace Stroke

/-- The segments between consecutive points. -/
def segments (points : List Point) : List (Point × Point) := points.zip points.tail

/-- The segment is upright or level. -/
def Straight (a b : Point) : Prop := a.x = b.x ∨ a.y = b.y

/-- The points beside an upright or a level segment, up to a distance. -/
def SegmentArea (half : Int) (a b p : Point) : Prop :=
  (a.x = b.x ∧ (a.x - half ≤ p.x ∧ p.x < a.x + half) ∧ min a.y b.y ≤ p.y ∧ p.y < max a.y b.y) ∨
    (a.y = b.y ∧ (min a.x b.x ≤ p.x ∧ p.x < max a.x b.x) ∧ a.y - half ≤ p.y ∧ p.y < a.y + half)

/-- The points of a stroke: those beside its segments and, if the pen is wide, those of the discs at its vertices. -/
def Area (width : Nat) (points : List Point) (p : Point) : Prop :=
  (∃ e ∈ segments points, SegmentArea ((width + 1) / 2 : Nat) e.1 e.2 p) ∨
    (2 < width ∧ 2 ≤ points.length ∧ ∃ center ∈ points, DiscArea (width / 2 : Nat) center p)

variable {a b : Point} {width : Nat}

theorem halfWidth_of_le (hwidth : width ≤ 2097152) : halfWidth width = ((width + 1) / 2 : Nat) := by
  refine Coordinate.saturate_of_inRange ?_
  simp only [Coordinate.InRange, Coordinate.least, Coordinate.greatest]
  omega

theorem corners_of_level (hlevel : a.y = b.y) :
    (segmentQuad a b width).corners = standing a.x b.x (a.y - halfWidth width) (a.y + halfWidth width) := by
  have hoffset : offset a b width = (0, halfWidth width) := by
    simp only [offset, plainOffset, hlevel, Int.lt_irrefl, ↓reduceIte, Int.neg_zero, ite_self]
  simp only [segmentQuad, hoffset, Quad.corners, standing, Point.offset, hlevel, Int.neg_zero, Int.add_zero,
    Int.sub_eq_add_neg]

theorem corners_of_upright (hupright : a.x = b.x) (hlevel : a.y ≠ b.y) :
    (segmentQuad a b width).corners = lying (a.x + halfWidth width) (a.x - halfWidth width) a.y b.y := by
  have hoffset : offset a b width = (halfWidth width, 0) := by
    simp only [offset, plainOffset, Ne.symm hlevel, hupright, Int.lt_irrefl, ↓reduceIte, Int.neg_zero, ite_self]
  simp only [segmentQuad, hoffset, Quad.corners, lying, Point.offset, hupright, Int.neg_zero, Int.add_zero,
    Int.sub_eq_add_neg]

variable {c : Canvas}

theorem painted_segment (hc : c.Valid) (hmodest : c.Modest) (hwidth : width ≤ 2097152) (ha : a.Modest) (hb : b.Modest)
    (hstraight : Straight a b) (color : Rgba) :
    c.Painted (c.fillPolygon (segmentQuad a b width).corners color) (fun _ => c.format.pack color)
      (SegmentArea ((width + 1) / 2 : Nat) a b) := by
  obtain ⟨hax, hay⟩ := ha
  obtain ⟨hbx, hby⟩ := hb
  have htame {n m : Int} (hn : n.natAbs ≤ 2097152) (hm : m.natAbs ≤ 1048576) : Tame (n + m) ∧ Tame (n - m) := by
    simp only [Tame]
    omega
  have hhalf : (halfWidth width).natAbs ≤ 1048576 := by
    rw [halfWidth_of_le hwidth]
    omega
  have hzero : (0 : Int).natAbs ≤ 1048576 := by decide
  by_cases hlevel : a.y = b.y
  · rw [corners_of_level hlevel]
    refine (Canvas.painted_fillPolygon_standing hc hmodest.fitsCoordinates ?_ ?_ (htame hay hhalf).2 (htame hay hhalf).1 color).congr
      fun p _ => ?_
    · simpa using (htame hax hzero).1
    · simpa using (htame hbx hzero).1
    · simp only [Box, SegmentArea, halfWidth_of_le hwidth]
      omega
  · have hupright := hstraight.resolve_right hlevel
    rw [corners_of_upright hupright hlevel]
    refine (Canvas.painted_fillPolygon_lying hc hmodest.fitsCoordinates (htame hax hhalf).1 (htame hax hhalf).2 ?_ ?_ color).congr
      fun p _ => ?_
    · simpa using (htame hay hzero).1
    · simpa using (htame hby hzero).1
    · simp only [Box, SegmentArea, halfWidth_of_le hwidth]
      omega

/-! ## Pieces -/

variable {pen : Pen} {radius : Int → Int} {first : Bool} {points : List Point}

/-- A canvas with plain edges on which coordinates are not rounded. -/
structure Plain (c : Canvas) : Prop where
  valid : c.Valid
  modest : c.Modest
  antialias_eq : c.antialias = false

theorem Plain.of_sameLayout {d : Canvas} (h : Plain c) (hd : c.SameLayout d) : Plain d where
  valid := hd.valid h.valid
  modest := ⟨hd.width_eq ▸ h.modest.width_le, hd.height_eq ▸ h.modest.height_le⟩
  antialias_eq := hd.antialias_eq.trans h.antialias_eq

theorem painted_cap (h : Plain c) (hwidth : 2 < width) (hradius : radius (capRadius width) = (width / 2 : Nat))
    (center : Point) :
    c.Painted (pen.piece radius c (.cap center (capRadius width))) (fun _ => c.format.pack pen.foreground)
      (DiscArea (width / 2 : Nat) center) := by
  have hradius' : (0 : Int) < (width / 2 : Nat) := by omega
  have hdisc := Canvas.painted_fillDisc h.valid h.modest.fitsCoordinates hradius' center pen.foreground
  simpa only [Pen.piece, Pen.disc, h.antialias_eq, Bool.false_eq_true, ↓reduceIte, hradius] using hdisc

theorem painted_segmentPieces (pen : Pen) (first : Bool) (h : Plain c) (hwidth : 2 ≤ width ∧ width ≤ 2097152)
    (hradius : radius (capRadius width) = (width / 2 : Nat)) (ha : a.Modest) (hb : b.Modest)
    (hstraight : Straight a b) :
    c.Painted ((segmentPieces first a b width).foldl (pen.piece radius) c) (fun _ => c.format.pack pen.foreground)
      (fun p => SegmentArea ((width + 1) / 2 : Nat) a b p ∨
        (2 < width ∧ ((first = true ∧ DiscArea (width / 2 : Nat) a p) ∨ DiscArea (width / 2 : Nat) b p))) := by
  have hquad : c.Painted (pen.piece radius c (.quad (segmentQuad a b width))) (fun _ => c.format.pack pen.foreground)
      (SegmentArea ((width + 1) / 2 : Nat) a b) := by
    have hsegment := painted_segment h.valid h.modest hwidth.2 ha hb hstraight pen.foreground
    simpa only [Pen.piece, Pen.polygon, h.antialias_eq, Bool.false_eq_true, ↓reduceIte] using hsegment
  have hcap (d : Canvas) (hd : c.SameLayout d) (hwide : 2 < width) (center : Point) :
      d.Painted (pen.piece radius d (.cap center (capRadius width))) (fun _ => c.format.pack pen.foreground)
        (DiscArea (width / 2 : Nat) center) :=
    hd.format_eq ▸ painted_cap (h.of_sameLayout hd) hwide hradius center
  unfold segmentPieces
  rw [if_neg (by omega), List.foldl_cons]
  by_cases hwide : 2 < width
  · rw [if_pos hwide]
    cases first with
    | true =>
        have hstart := hquad.trans (hcap _ hquad.layout hwide a)
        exact (hstart.trans (hcap _ hstart.layout hwide b)).congr fun p _ => by
          simp only [hwide, true_and, or_assoc]
    | false =>
        exact (hquad.trans (hcap _ hquad.layout hwide b)).congr fun p _ => by
          simp only [hwide, true_and, Bool.false_eq_true, false_and, false_or]
  · rw [if_neg hwide]
    exact hquad.congr fun p _ => by simp only [hwide, false_and, or_false]

/-- From a vertex on, the pieces cover the segments and the vertices, the first one only if the stroke starts there. -/
theorem painted_planFrom (h : Plain c) (hwidth : 2 ≤ width ∧ width ≤ 2097152)
    (hradius : radius (capRadius width) = (width / 2 : Nat)) (hmodest : ∀ p ∈ points, p.Modest)
    (hstraight : ∀ e ∈ segments points, Straight e.1 e.2) :
    c.Painted ((planFrom width first points).foldl (pen.piece radius) c) (fun _ => c.format.pack pen.foreground)
      (fun p => (∃ e ∈ segments points, SegmentArea ((width + 1) / 2 : Nat) e.1 e.2 p) ∨
        (2 < width ∧ 2 ≤ points.length ∧
          ∃ center ∈ if first then points else points.tail, DiscArea (width / 2 : Nat) center p)) := by
  induction points generalizing first c with
  | nil => exact (Canvas.Painted.refl c _).congr fun p _ => by simp [segments]
  | cons a rest ih =>
      cases rest with
      | nil => exact (Canvas.Painted.refl c _).congr fun p _ => by simp [segments]
      | cons b rest =>
          obtain ⟨ha, hrest⟩ := List.forall_mem_cons.mp hmodest
          have hsegments : segments (a :: b :: rest) = (a, b) :: segments (b :: rest) := rfl
          rw [hsegments] at hstraight
          obtain ⟨hab, hnext⟩ := List.forall_mem_cons.mp hstraight
          have hpieces := painted_segmentPieces pen first h hwidth hradius ha (hrest b List.mem_cons_self) hab
          have htail := @ih _ false (h.of_sameLayout hpieces.layout) hrest hnext
          rw [hpieces.layout.format_eq] at htail
          rw [planFrom, List.foldl_append]
          refine (hpieces.trans htail).congr fun p _ => ?_
          simp only [hsegments, List.mem_cons, exists_eq_or_imp, List.tail_cons, List.length_cons]
          -- A vertex behind the second one comes with a segment of its own.
          cases first <;> grind

end Stroke

namespace Display

variable {d : Display} {pen : Pen} {points : List Point}

/-- An upright or level stroke overwrites the pixels of its area on the root and leaves all others as they are. -/
theorem painted_drawLines (h : Stroke.Plain d.screen.root) (hwidth : 2 ≤ pen.width ∧ pen.width ≤ 2097152)
    (hmodest : ∀ p ∈ points, p.Modest) (hstraight : ∀ e ∈ Stroke.segments points, Stroke.Straight e.1 e.2) :
    (d.drawLines .root pen points).1 = .ok () ∧
      d.screen.root.Painted (d.drawLines .root pen points).2.screen.root
        (fun _ => d.screen.root.format.pack pen.foreground) (Stroke.Area pen.width points) :=
  ⟨rfl, Stroke.painted_planFrom h hwidth rfl hmodest hstraight⟩

/-- The disc of a dot that is three pixels wide goes without the pixel above its centre. -/
theorem painted_drawLines_of_dot :
    let root : Canvas := ⟨3, 3, .rgba8888, false, Buffer.zeros 36⟩
    let d : Display := ⟨.ofRoot root, .upTo 36, .empty, Png.decoder, .start, true, true, .default⟩
    let pen : Pen := ⟨.white, .black, 3⟩
    let points : List Point := [⟨1, 1⟩, ⟨1, 1⟩]
    let dot := (d.drawLines .root pen points).2.screen.root
    Stroke.Plain root ∧ (2 ≤ pen.width ∧ pen.width ≤ 2097152) ∧ (∀ p ∈ points, p.Modest) ∧
      (∀ e ∈ Stroke.segments points, Stroke.Straight e.1 e.2) ∧ dot.packed? ⟨1, 2⟩ = some (root.format.pack .white) ∧
        dot.packed? ⟨1, 0⟩ = root.packed? ⟨1, 0⟩ := by
  intro root d pen points dot
  have hplain : Stroke.Plain root := ⟨⟨by decide, by decide, by decide⟩, ⟨by decide, by decide⟩, rfl⟩
  have hmodest : ∀ p ∈ points, p.Modest := by simp [points, Point.Modest]
  have hstraight : ∀ e ∈ Stroke.segments points, Stroke.Straight e.1 e.2 := by
    simp [points, Stroke.segments, Stroke.Straight]
  have hdot := (@painted_drawLines d pen points hplain (by decide) hmodest hstraight).2
  refine ⟨hplain, by decide, hmodest, hstraight, hdot.inside _ (by decide) (.inr ?_), hdot.outside _ ?_⟩
  · simp [pen, points, DiscArea, InDisc, Int.max_def, Int.min_def]
  · simp [pen, points, Stroke.Area, DiscArea, Stroke.SegmentArea, Stroke.segments]

end Display

end Framecast
