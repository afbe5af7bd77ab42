import Framecast.Proofs.Shape.Strokes
import Mathlib.Data.List.Forall2

/-!
# What a stroke is made of

A polyline is stroked segment by segment. A thin pen draws each segment as a plain line. A wider pen draws it as a
quadrilateral that has the segment in its middle, however its corners were rounded, and a pen wider than two puts a
round cap behind it at the segment's end. The first segment has a cap at its start as well, so that every vertex has one
of its own.
-/

namespace Framecast

/-- The quadrilateral is a parallelogram, and the segment joins the middles of two of its sides. -/
structure Quad.Straddles (q : Quad) (source target : Point) : Prop where
  source_between : q.a.x + q.b.x = 2 * source.x ∧ q.a.y + q.b.y = 2 * source.y
  target_between : q.c.x + q.d.x = 2 * target.x ∧ q.c.y + q.d.y = 2 * target.y
  side_eq : q.a.seenFrom source = q.d.seenFrom target

namespace Stroke

/-- What a segment of a wide stroke becomes: a quadrilateral and the caps around some centres behind it. -/
structure Stretch where
  quad : Quad
  centers : List Point

def Stretch.pieces (radius : Int) (s : Stretch) : List StrokePiece :=
  .quad s.quad :: s.centers.map fun center => .cap center radius

variable {width : Nat}

theorem segments_cons_cons (a b : Point) (rest : List Point) :
    segments (a :: b :: rest) = (a, b) :: segments (b :: rest) := rfl

theorem straddles_segmentQuad (a b : Point) (width : Nat) : (segmentQuad a b width).Straddles a b := by
  -- The offset is added at one corner of each end and taken away at the other, whatever it is.
  rcases hoffset : offset a b width with ⟨dx, dy⟩
  simp only [segmentQuad, hoffset]
  refine ⟨?_, ?_, by rw [Point.seenFrom_offset, Point.seenFrom_offset]⟩
  all_goals
    simp only [Point.offset]
    omega

/-! ## Thin strokes -/

theorem planFrom_of_thin (hthin : width ≤ 1) (first : Bool) (points : List Point) :
    planFrom width first points = (segments points).map fun e => .line e.1 e.2 := by
  induction points generalizing first with
  | nil => rfl
  | cons a rest ih =>
      cases rest with
      | nil => rfl
      | cons b rest =>
          rw [planFrom, segmentPieces, if_pos hthin, ih, segments_cons_cons, List.map_cons, List.singleton_append]

/-! ## Wide strokes -/

/-- What one segment becomes; the first one also has a cap at its start. -/
def stretch (width : Nat) (first : Bool) (a b : Point) : Stretch where
  quad := segmentQuad a b width
  centers := if 2 < width then (if first then [a] else []) ++ [b] else []

theorem segmentPieces_eq (hwide : 1 < width) (first : Bool) (a b : Point) :
    segmentPieces first a b width = (stretch width first a b).pieces (capRadius width) := by
  rw [segmentPieces, if_neg (by omega), Stretch.pieces, stretch]
  by_cases hcaps : 2 < width
  · cases first <;> simp [hcaps]
  · simp [hcaps]

theorem getLast?_stretch (hcaps : 2 < width) (first : Bool) (a b : Point) :
    (stretch width first a b).centers.getLast? = some b := by
  simp [stretch, hcaps]

/-- From a vertex on each segment becomes a stretch; the vertex itself has a cap only if the stroke starts there. -/
theorem exists_stretches (hwide : 1 < width) (first : Bool) (points : List Point) :
    ∃ stretches : List Stretch,
      planFrom width first points = stretches.flatMap (Stretch.pieces (capRadius width)) ∧
        List.Forall₂ (fun e s => s.quad.Straddles e.1 e.2 ∧ (2 < width → s.centers.getLast? = some e.2))
          (segments points) stretches ∧
        stretches.flatMap Stretch.centers =
          if 2 < width ∧ 2 ≤ points.length then (if first then points else points.tail) else [] := by
  induction points generalizing first with
  | nil => exact ⟨[], rfl, .nil, by simp⟩
  | cons a rest ih =>
      cases rest with
      | nil => exact ⟨[], rfl, .nil, by simp⟩
      | cons b rest =>
          obtain ⟨stretches, hplan, hsegments, hcenters⟩ := ih false
          refine ⟨stretch width first a b :: stretches, ?_, .cons ⟨straddles_segmentQuad a b width, ?_⟩ hsegments, ?_⟩
          · rw [planFrom, segmentPieces_eq hwide, hplan, List.flatMap_cons]
          · exact fun hcaps => getLast?_stretch hcaps first a b
          · rw [List.flatMap_cons, hcenters]
            -- The caps that follow are those of the vertices behind the second one; there may be none.
            by_cases hcaps : 2 < width <;> cases first <;> cases rest <;> simp [stretch, hcaps]

/-- A thin stroke is a line for each segment. A wider one is a quadrilateral around each segment in turn and, if the pen
is wider than two, behind it the cap of the segment's end; the centres of all caps are the vertices in their order. -/
theorem plan_segment_by_segment (points : List Point) (width : Nat) :
    if width ≤ 1 then plan points width = (segments points).map fun e => .line e.1 e.2
    else
      ∃ stretches : List Stretch,
        plan points width = stretches.flatMap (Stretch.pieces (width / 2 : Nat)) ∧
          List.Forall₂ (fun e s => s.quad.Straddles e.1 e.2 ∧ (2 < width → s.centers.getLast? = some e.2))
            (segments points) stretches ∧
          stretches.flatMap Stretch.centers = if 2 < width ∧ 2 ≤ points.length then points else [] := by
  split
  · rename_i hthin
    exact planFrom_of_thin hthin true points
  · rename_i hwide
    exact exists_stretches (Nat.lt_of_not_le hwide) true points

/-- A corner of a pen that is five wide: the vertex in the middle has one cap, behind the first quadrilateral. -/
example : plan [⟨0, 0⟩, ⟨0, 20⟩, ⟨9, 20⟩] 5 =
    [.quad ⟨⟨3, 0⟩, ⟨-3, 0⟩, ⟨-3, 20⟩, ⟨3, 20⟩⟩, .cap ⟨0, 0⟩ 2, .cap ⟨0, 20⟩ 2,
      .quad ⟨⟨0, 17⟩, ⟨0, 23⟩, ⟨9, 23⟩, ⟨9, 17⟩⟩, .cap ⟨9, 20⟩ 2] := by
  decide

end Stroke

end Framecast
