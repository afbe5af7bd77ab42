import Framecast.Proofs.Text.Runs

/-!
# Measured text

The box that is measured around a text in a box font holds all that the text changes on a canvas. Measuring counts the
characters, and drawing adds up what they move the pen by: `mem_boxes_shape` says that each character stands in a cell
of its own, one behind the other, and the box is as wide as all cells. On a background the halos reach beyond it, by one
column on the right and two rows at the bottom.
-/

namespace Framecast

namespace BoxFont

variable {f : BoxFont} {origin : Point}

/-- Every character moves the pen by the same distance, whether it leaves a mark or not. -/
theorem penAfter_shape (f : BoxFont) (pen : Point) (chars : List Char) :
    Glyph.penAfter pen (chars.map f.glyph) = ⟨pen.x + chars.length * f.advance, pen.y⟩ := by
  induction chars generalizing pen with
  | nil => simp [Glyph.penAfter]
  | cons c chars ih =>
      have hnext : Glyph.penAfter pen ((c :: chars).map f.glyph) =
          Glyph.penAfter ⟨pen.x + f.advance, pen.y + 0⟩ (chars.map f.glyph) := by
        simp only [Glyph.penAfter, List.map_cons, List.foldl_cons, glyph]
      rw [hnext, ih, Int.add_zero, List.length_cons, Int.natCast_succ, Int.add_mul, Int.one_mul, Int.add_assoc,
        Int.add_comm f.advance]

section

variable (hfont : Coordinate.InRange (f.size * 64))
include hfont

theorem advance_eq : f.advance = (f.cellWidth + 1) * 64 := by
  rw [advance, Coordinate.wrap_of_inRange]
  simp only [Coordinate.InRange, Coordinate.least, Coordinate.greatest, cellWidth] at hfont ⊢
  omega

theorem wrap_cellHeight : Coordinate.wrap f.cellHeight = f.cellHeight := by
  rw [Coordinate.wrap_of_inRange]
  simp only [Coordinate.InRange, Coordinate.least, Coordinate.greatest, cellHeight] at hfont ⊢
  omega

theorem top_glyph (c : Char) : (f.glyph c).top = -f.cellHeight * 64 := by
  have hheight : Coordinate.InRange (f.cellHeight * 64) ∧ Coordinate.InRange (-(f.cellHeight * 64)) := by
    simp only [Coordinate.InRange, Coordinate.least, Coordinate.greatest, cellHeight] at hfont ⊢
    omega
  rw [glyph, wrap_cellHeight hfont, Coordinate.wrap_of_inRange hheight.1, Coordinate.wrap_of_inRange hheight.2,
    Int.neg_mul]

/-! ## Cells -/

theorem cornerAfter_shape (origin : Point) (chars : List Char) (c : Char) :
    (f.glyph c).cornerAfter origin (chars.map f.glyph) =
      ⟨origin.x + (chars.length * (f.cellWidth + 1) : Nat), origin.y - f.cellHeight⟩ := by
  have hleft : (f.glyph c).left = 0 := rfl
  have hcolumn : ((chars.length * (f.cellWidth + 1) : Nat) : Int) = chars.length * (f.cellWidth + 1) :=
    Int.natCast_mul _ _
  rw [Glyph.cornerAfter, penAfter_shape, advance_eq hfont, top_glyph hfont, hleft, ← Int.mul_assoc, ← hcolumn,
    Point.mk.injEq]
  dsimp only
  omega

/-- A character that leaves a mark has the box of its place in the text. -/
theorem mem_boxes_shape {text : String} {directionX directionY : Int} {q : Glyph Char × Point}
    (hq : q ∈ Glyph.boxes origin (f.shape text directionX directionY)) :
    ∃ i < text.toList.length, q.2 = ⟨origin.x + (i * (f.cellWidth + 1) : Nat), origin.y - f.cellHeight⟩ ∧
      q.1.width = f.cellWidth ∧ q.1.height = f.cellHeight := by
  simp only [Glyph.boxes, shape, List.mem_map, List.mem_filter, Prod.exists] at hq
  obtain ⟨g, i, ⟨hmem, hmark⟩, rfl⟩ := hq
  have hget := List.mem_zipIdx_iff_getElem?.mp hmem
  simp only [List.getElem?_map, Option.map_eq_some_iff] at hget
  obtain ⟨c, hc, rfl⟩ := hget
  obtain ⟨hi, -⟩ := List.getElem?_eq_some_iff.mp hc
  refine ⟨i, hi, ?_, ?_⟩
  · rw [← List.map_take, cornerAfter_shape hfont, List.length_take_of_le (Nat.le_of_lt hi)]
  · cases hblank : Text.isBlank c with
    | true => simp [glyph, Glyph.isBlank, hblank] at hmark
    | false => simp [glyph, hblank]

/-- What lies in the box of a character, made wider and higher by a margin, lies in the box of all cells of the text,
made larger by as much. -/
theorem within_of_mem_boxesOn {text : String} {directionX directionY : Int} {q : Glyph Char × Point} {margin : Nat}
    {p : Point} (hq : q ∈ Glyph.boxesOn margin origin (f.shape text directionX directionY) p) :
    (origin.x ≤ p.x ∧ p.x + 1 < origin.x + (text.toList.length * (f.cellWidth + 1) + margin : Nat)) ∧
      origin.y - f.cellHeight ≤ p.y ∧ p.y < origin.y + margin := by
  obtain ⟨hbox, hboxed⟩ := List.mem_filter.mp hq
  have hp : Glyph.Boxed margin q p := of_decide_eq_true hboxed
  obtain ⟨i, hi, hcorner, hwidth, hheight⟩ := mem_boxes_shape hfont hbox
  have hlast : i * (f.cellWidth + 1) + (f.cellWidth + 1) ≤ text.toList.length * (f.cellWidth + 1) :=
    Canvas.mul_add_le_mul hi
  simp only [Glyph.Boxed, Point.seenFrom, hcorner, hwidth, hheight] at hp
  generalize i * (f.cellWidth + 1) = column at hlast hp
  omega

/-! ## The measured box -/

section

variable {text : String} (hx : Coordinate.InRange (origin.x * 64))
  (hright : Coordinate.InRange ((origin.x + (text.toList.length * (f.cellWidth + 1) : Nat)) * 64))
include hx hright

/-- A text whose cells are all in the range of coordinates makes no number wrap around. -/
theorem fits_shape (htop : Coordinate.InRange ((origin.y - f.cellHeight) * 64)) (directionX directionY : Int) :
    Glyph.Fits origin (f.shape text directionX directionY) := by
  have hletter : ∀ q ∈ (f.shape text directionX directionY).zipIdx,
      (∃ c, q.1 = f.glyph c) ∧ q.2 ≤ text.toList.length := by
    intro q hq
    have hget := List.mem_zipIdx_iff_getElem?.mp hq
    simp only [shape, List.getElem?_map, Option.map_eq_some_iff] at hget
    obtain ⟨c, hc, hglyph⟩ := hget
    exact ⟨⟨c, hglyph.symm⟩, Nat.le_of_lt (List.getElem?_eq_some_iff.mp hc).1⟩
  have hpen (i : Nat) (hi : i ≤ text.toList.length) :
      Glyph.penAfter ⟨64 * origin.x, 64 * origin.y⟩ ((f.shape text directionX directionY).take i) =
        ⟨(origin.x + (i * (f.cellWidth + 1) : Nat)) * 64, origin.y * 64⟩ := by
    have hcells : ((i * (f.cellWidth + 1) : Nat) : Int) = i * (f.cellWidth + 1) := Int.natCast_mul _ _
    rw [shape, ← List.map_take, penAfter_shape, List.length_take_of_le hi, advance_eq hfont, hcells,
      Int.add_mul origin.x, Int.mul_assoc, Int.mul_comm 64, Int.mul_comm 64]
  constructor
  case x_inRange =>
    intro q hq _
    obtain ⟨⟨c, hc⟩, hi⟩ := hletter q hq
    have hleft : q.1.left = 0 := by rw [hc]; rfl
    have hcell : q.2 * (f.cellWidth + 1) ≤ text.toList.length * (f.cellWidth + 1) := Nat.mul_le_mul_right _ hi
    rw [hpen q.2 hi, hleft]
    simp only [Coordinate.InRange, Coordinate.least, Coordinate.greatest] at hx hright ⊢
    omega
  case y_inRange =>
    intro q hq _
    obtain ⟨⟨c, hc⟩, hi⟩ := hletter q hq
    have hlow : origin.y * 64 + q.1.top = (origin.y - f.cellHeight) * 64 := by
      rw [hc, top_glyph hfont, Int.neg_mul, Int.sub_mul, Int.sub_eq_add_neg]
    rw [hpen q.2 hi, hlow]
    exact htop
  case sized =>
    refine List.forall_mem_map.mpr fun c _ _ => sized_glyph ?_ c
    simp only [Coordinate.InRange, Coordinate.least, Coordinate.greatest] at hfont ⊢
    omega

theorem measure_eq (directionX directionY : Int) :
    f.measure text directionX directionY =
      ⟨⟨0, 0⟩, ⟨0, -f.cellHeight⟩, ⟨(text.toList.length * (f.cellWidth + 1) : Nat), -f.cellHeight⟩,
        ⟨(text.toList.length * (f.cellWidth + 1) : Nat), 0⟩⟩ := by
  have hcount : text.toList.length ≤ text.toList.length * (f.cellWidth + 1) :=
    Nat.le_mul_of_pos_right _ (Nat.succ_pos _)
  have hrange : Coordinate.InRange text.toList.length ∧
      Coordinate.InRange (text.toList.length * (f.cellWidth + 1) : Nat) ∧ Coordinate.InRange (-f.cellHeight) := by
    simp only [Coordinate.InRange, Coordinate.least, Coordinate.greatest, cellHeight] at hx hright hfont ⊢
    omega
  have hwidth : f.advance / 64 * text.toList.length = (text.toList.length * (f.cellWidth + 1) : Nat) := by
    rw [advance_eq hfont, Int.mul_ediv_cancel _ (by decide), Int.mul_comm]
    exact (Int.natCast_mul _ _).symm
  rw [measure, Coordinate.wrap_of_inRange hrange.1, hwidth, wrap_cellHeight hfont,
    Coordinate.wrap_of_inRange hrange.2.1, Coordinate.wrap_of_inRange hrange.2.2]

/-- What a text changes on a canvas lies in the box that is measured for it, with its lower left corner at the origin of
the text. On a background it lies in a box that is larger by one column on the right and by two rows at the bottom. -/
theorem drawn_within_measured {c : Canvas} (hc : c.Valid)
    (htop : Coordinate.InRange ((origin.y - f.cellHeight) * 64)) (directionX directionY : Int) (foreground : Rgba)
    (s : Scratch) :
    let bounds := f.measure text directionX directionY
    let width := bounds.topRight.x
    let height := -bounds.topRight.y
    let drawn (background : Option Rgba) :=
      (typesetter.paintRun (f.shape text directionX directionY) foreground background origin c s).1
    bounds = ⟨⟨0, 0⟩, ⟨0, -height⟩, ⟨width, -height⟩, ⟨width, 0⟩⟩ ∧
      (∀ p, (drawn none).packed? p ≠ c.packed? p →
        (origin.x ≤ p.x ∧ p.x < origin.x + width) ∧ origin.y - height ≤ p.y ∧ p.y < origin.y) ∧
      ∀ background p, (drawn (some background)).packed? p ≠ c.packed? p →
        (origin.x ≤ p.x ∧ p.x < origin.x + width + 1) ∧ origin.y - height ≤ p.y ∧ p.y < origin.y + 2 := by
  intro bounds width height drawn
  have hbounds := measure_eq hfont hx hright directionX directionY
  have hfits := fits_shape hfont hx hright htop directionX directionY
  have hwidth : width = (text.toList.length * (f.cellWidth + 1) : Nat) := congrArg (·.topRight.x) hbounds
  have hheight : height = f.cellHeight := by
    simp only [height, bounds, hbounds, Int.neg_neg]
  rw [hheight, hwidth]
  refine ⟨hbounds, fun p hp => ?_, fun background p hp => ?_⟩
  · have hlayers := typesetter.layered_paintRun_none hfits hc foreground s
    obtain ⟨color, hcolor⟩ := List.exists_mem_of_ne_nil _ (hlayers.ne_nil_of_packed?_ne hp)
    obtain ⟨q, hq, -⟩ := List.mem_map.mp hcolor
    have hwithin := within_of_mem_boxesOn hfont hq
    omega
  · have hlayers := typesetter.layered_paintRun_some hfits hc foreground background s
    obtain ⟨color, hcolor⟩ := List.exists_mem_of_ne_nil _ (hlayers.ne_nil_of_packed?_ne hp)
    rcases List.mem_append.mp hcolor with hhalo | hglyph
    · obtain ⟨q, hq, -⟩ := List.mem_map.mp hhalo
      have hwithin := within_of_mem_boxesOn hfont hq
      omega
    · obtain ⟨q, hq, -⟩ := List.mem_map.mp hglyph
      have hwithin := within_of_mem_boxesOn hfont hq
      omega

end

end

/-- The second letter is drawn in the last cells of the text, and its halo in the column and the rows beside them. -/
theorem drawn_within_measured_of_two_letters :
    let c : Canvas := ⟨9, 6, .rgba2222, false, Buffer.zeros 54⟩
    let f : BoxFont := ⟨2, .plain⟩
    let origin : Point := ⟨1, 3⟩
    let red : Rgba := ⟨255, 0, 0, 255⟩
    let blue : Rgba := ⟨0, 0, 255, 255⟩
    let drawn (background : Option Rgba) :=
      (typesetter.paintRun (f.shape "a b" 65536 0) red background origin c .empty).1
    c.Valid ∧ Coordinate.InRange (f.size * 64) ∧ Coordinate.InRange (origin.x * 64) ∧
      Coordinate.InRange ((origin.x + ("a b".toList.length * (f.cellWidth + 1) : Nat)) * 64) ∧
      Coordinate.InRange ((origin.y - f.cellHeight) * 64) ∧
      f.measure "a b" 65536 0 = ⟨⟨0, 0⟩, ⟨0, -2⟩, ⟨6, -2⟩, ⟨6, 0⟩⟩ ∧
      ((drawn none).packed? ⟨5, 2⟩ ≠ c.packed? ⟨5, 2⟩ ∧ ∀ p, (drawn none).packed? p ≠ c.packed? p →
        (1 ≤ p.x ∧ p.x < 7) ∧ 1 ≤ p.y ∧ p.y < 3) ∧
      (drawn (some blue)).packed? ⟨7, 4⟩ ≠ c.packed? ⟨7, 4⟩ ∧ ∀ p, (drawn (some blue)).packed? p ≠ c.packed? p →
        (1 ≤ p.x ∧ p.x < 8) ∧ 1 ≤ p.y ∧ p.y < 5 := by
  intro c f origin red blue drawn
  have hc : c.Valid := ⟨by decide, by decide, by decide⟩
  have hfont : Coordinate.InRange (f.size * 64) := by decide
  have hx : Coordinate.InRange (origin.x * 64) := by decide
  have hright : Coordinate.InRange ((origin.x + ("a b".toList.length * (f.cellWidth + 1) : Nat)) * 64) := by decide
  have htop : Coordinate.InRange ((origin.y - f.cellHeight) * 64) := by decide
  have hbounds : f.measure "a b" 65536 0 = ⟨⟨0, 0⟩, ⟨0, -2⟩, ⟨6, -2⟩, ⟨6, 0⟩⟩ := by decide +kernel
  obtain ⟨-, hbare, hpaper⟩ := drawn_within_measured hfont hx hright hc htop 65536 0 red .empty
  rw [hbounds] at hbare hpaper
  exact ⟨hc, hfont, hx, hright, htop, hbounds, ⟨by decide +kernel, hbare⟩, by decide +kernel, hpaper blue⟩

end BoxFont

end Framecast
