import Framecast.Proofs.Canvas.Conversions
import Framecast.Proofs.Canvas.Operations

/-!
# Rows and rectangles

On a canvas whose columns are coordinates a row is painted from its one end to the other, as if its pixels were put one
by one. A rectangle is painted row by row, after its sides were cut to the greatest coordinate: what lies behind such a
cut side stays as it was, although it belongs to the rectangle, and so does the row of the greatest coordinate. On a
wider canvas the last column wraps to a negative number, and no row is painted at all.
-/

namespace Framecast

theorem Span.fold_of_lt {α : Type} {s : Span} (h : s.last < s.first) (f : α → Int → α) (init : α) :
    s.fold f init = init := by
  have hlength : s.length = 0 := by
    simp only [length]
    omega
  rw [fold, hlength, foldFrom]

namespace Coordinate

variable {n m : Int}

theorem le_saturate_iff (hn : n ≤ greatest) (hm : least ≤ m) : n ≤ saturate m ↔ n ≤ m := by
  simp only [saturate, least, greatest] at *
  omega

theorem lt_saturate_iff (hm : least ≤ m) : n < saturate m ↔ n < m ∧ n < greatest := by
  simp only [saturate, least, greatest] at *
  omega

end Coordinate

namespace Canvas

variable {c d : Canvas} {picture : Point → Nat} {S T : Point → Prop} {corner : Point} {width height value : Nat}

/-- A larger set is painted too exactly if what was left out of it already looks as the picture does. -/
theorem Painted.extend_iff (h : c.Painted d picture S) (hST : ∀ p, S p → T p) :
    c.Painted d picture T ↔ ∀ p, c.Contains p → T p → ¬ S p → c.packed? p = some (picture p) := by
  constructor
  · intro hpainted p hp hT hS
    rw [← h.outside p hS]
    exact hpainted.inside p hp hT
  · intro hrest
    refine ⟨h.layout, fun p hp hT => ?_, fun p hT => h.outside p fun hS => hT (hST p hS)⟩
    by_cases hS : S p
    · exact h.inside p hp hS
    · rw [h.outside p hS]
      exact hrest p hp hT hS

/-- The width is an unsigned number of 32 bits behind the ones that have a last column. -/
def Wide (c : Canvas) : Prop := 2147483648 < c.width ∧ c.width < 4294967296

theorem Wide.not_narrow (h : c.Wide) : ¬ c.Narrow := by
  have := h.1
  simp only [Narrow, Coordinate.greatest]
  omega

theorem Wide.lastColumn_neg (h : c.Wide) : c.lastColumn < 0 := by
  obtain ⟨hlow, hhigh⟩ := h
  simp only [lastColumn, Coordinate.wrap, Int.bmod_def]
  omega

/-! ## Rows -/

/-- The points of a row between two columns, given in any order. -/
def RowArea (a b y : Int) (p : Point) : Prop := p.y = y ∧ min a b ≤ p.x ∧ p.x ≤ max a b

theorem painted_rowArea (hc : c.Valid) (hnarrow : c.Narrow) (a b y : Int) (value : Nat) :
    c.Painted (c.putRow a b y value) (fun _ => c.stored value) (RowArea a b y) :=
  (painted_putRow_stored hc a b y value).congr fun p hp => by
    obtain ⟨-, hx, -, -⟩ := hp
    rw [lastColumn_eq hnarrow, Span.mem_between, RowArea]
    omega

theorem putRow_eq_fold_put (hc : c.Valid) (hnarrow : c.Narrow) (a b y : Int) (value : Nat) :
    c.putRow a b y value = (Span.between a b).fold (fun d x => d.put ⟨x, y⟩ value) c := by
  have hput (d : Canvas) (x : Int) (hd : c.SameLayout d) :
      d.Painted (d.put ⟨x, y⟩ value) (fun _ => c.stored value) (· = ⟨x, y⟩) :=
    hd.stored_eq value ▸ painted_put_stored (hd.valid hc) ⟨x, y⟩ value
  have hpixels : c.Painted ((Span.between a b).fold (fun d x => d.put ⟨x, y⟩ value) c) (fun _ => c.stored value)
      (RowArea a b y) := by
    refine (Painted.spanFold fun d x _ hd => hput d x hd).congr fun p _ => ?_
    simp only [Span.mem_between, RowArea]
    constructor
    · rintro ⟨x, hx, rfl⟩
      exact ⟨rfl, hx⟩
    · rintro ⟨rfl, hx⟩
      exact ⟨p.x, hx, rfl⟩
  exact hpixels.unique (painted_rowArea hc hnarrow a b y value) hc

theorem putRow_of_wide (h : c.Wide) (a b y : Int) (value : Nat) : c.putRow a b y value = c := by
  have hlast := h.lastColumn_neg
  unfold putRow
  split
  · rfl
  · exact Span.fold_of_lt (by simp only [Span.clip]; omega) _ c

/-! ## Rectangles -/

/-- The points of a rectangle. -/
def RectangleArea (corner : Point) (width height : Nat) (p : Point) : Prop :=
  (corner.x ≤ p.x ∧ p.x < corner.x + width) ∧ corner.y ≤ p.y ∧ p.y < corner.y + height

/-- The points of a rectangle that are still reached when its sides are cut to the greatest coordinate. -/
def RectangleReach (corner : Point) (width height : Nat) (p : Point) : Prop :=
  RectangleArea corner (min width 2147483647) (min height 2147483647) p ∧ p.y < Coordinate.greatest

theorem RectangleReach.area {p : Point} (h : RectangleReach corner width height p) :
    RectangleArea corner width height p := by
  simp only [RectangleReach, RectangleArea] at h ⊢
  omega

theorem painted_rectangleReach (hc : c.Valid) (hnarrow : c.Narrow) (hx : Coordinate.InRange corner.x)
    (hy : Coordinate.InRange corner.y) (width height value : Nat) :
    c.Painted (c.putRect corner width height value) (fun _ => c.stored value) (RectangleReach corner width height) := by
  unfold putRect
  split
  · refine (Painted.refl c _).congr fun p _ => ?_
    simp only [RectangleReach, RectangleArea, false_iff]
    omega
  · obtain ⟨hx, hx'⟩ := hx
    obtain ⟨hy, -⟩ := hy
    have hgreatest : Coordinate.greatest = 2147483647 := rfl
    -- A saturated edge counts as the true one for every column and row of the canvas, but for the last possible row.
    have hright (n : Int) (hn : n ≤ Coordinate.greatest) := Coordinate.le_saturate_iff hn
      (m := corner.x + (min (width : Int) Coordinate.greatest - 1)) (by omega)
    have hbottom (n : Int) := Coordinate.lt_saturate_iff (n := n)
      (m := corner.y + min (height : Int) Coordinate.greatest) (by omega)
    simp only
    generalize Coordinate.saturate (corner.x + (min (width : Int) Coordinate.greatest - 1)) = right at hright ⊢
    generalize Coordinate.saturate (corner.y + min (height : Int) Coordinate.greatest) = bottom at hbottom ⊢
    have hrow (d : Canvas) (y : Int) (hd : c.SameLayout d) :
        d.Painted (d.putRow corner.x right y value) (fun _ => c.stored value) (RowArea corner.x right y) :=
      hd.stored_eq value ▸ painted_rowArea (hd.valid hc) (hd.narrow hnarrow) corner.x right y value
    refine (Painted.spanFold fun d y _ hd => hrow d y hd).congr fun p hp => ?_
    obtain ⟨-, hpx, hpy, hpy'⟩ := hp
    have hcolumns : (c.width : Int) - 1 ≤ Coordinate.greatest := hnarrow
    have hfirst := (hright corner.x hx').mpr (by omega)
    have hright := hright p.x (by omega)
    have hbottom := hbottom p.y
    simp only [Span.mem_iff, Span.clip, RowArea, RectangleReach, RectangleArea]
    constructor
    · rintro ⟨y, hmem, rfl, hcolumn⟩
      omega
    · intro hin
      exact ⟨p.y, by omega, rfl, by omega⟩

theorem putRect_of_wide (h : c.Wide) (corner : Point) (width height value : Nat) :
    c.putRect corner width height value = c := by
  unfold putRect
  split
  · rfl
  · refine Span.fold_preserves (p := (· = c)) _ (fun d y _ hd => ?_) rfl
    rw [hd]
    exact putRow_of_wide h _ _ y value

/-- Where no side is cut on this side of the far edges of the canvas, the whole rectangle is reached. -/
theorem rectangleReach_of_uncut (hrows : (c.height : Int) ≤ Coordinate.greatest)
    (hx : (width : Int) ≤ Coordinate.greatest ∨ (c.width : Int) ≤ corner.x + Coordinate.greatest)
    (hy : (height : Int) ≤ Coordinate.greatest ∨ (c.height : Int) ≤ corner.y + Coordinate.greatest) {p : Point}
    (hp : c.Contains p) (harea : RectangleArea corner width height p) : RectangleReach corner width height p := by
  obtain ⟨-, hpx, -, hpy⟩ := hp
  simp only [RectangleReach, RectangleArea, Coordinate.greatest] at *
  omega

/-- On a canvas whose columns are coordinates, a row is painted exactly, as if its pixels were put one by one, and a
rectangle is painted as far as it is reached; so it is painted whole exactly if what is cut off looks like it already,
and always if nothing is cut off on this side of the far edges. On a wider canvas nothing is painted. -/
theorem painted_rectangle_iff (hc : c.Valid) (value : Nat) :
    (c.Narrow → ∀ a b y,
      c.Painted (c.putRow a b y value) (fun _ => c.stored value) (RowArea a b y) ∧
        c.putRow a b y value = (Span.between a b).fold (fun d x => d.put ⟨x, y⟩ value) c) ∧
      (c.Narrow → ∀ (corner : Point) (width height : Nat), Coordinate.InRange corner.x → Coordinate.InRange corner.y →
        let filled := c.putRect corner width height value
        let area := RectangleArea corner width height
        let reach := RectangleReach corner width height
        c.Painted filled (fun _ => c.stored value) reach ∧
          (c.Painted filled (fun _ => c.stored value) area ↔
            ∀ p, c.Contains p → area p → ¬ reach p → c.packed? p = some (c.stored value)) ∧
          ((c.height : Int) ≤ Coordinate.greatest →
            (width : Int) ≤ Coordinate.greatest ∨ (c.width : Int) ≤ corner.x + Coordinate.greatest →
            (height : Int) ≤ Coordinate.greatest ∨ (c.height : Int) ≤ corner.y + Coordinate.greatest →
            c.Painted filled (fun _ => c.stored value) area)) ∧
      (c.Wide →
        (∀ a b y, c.putRow a b y value = c ∧
          (c.Painted (c.putRow a b y value) (fun _ => c.stored value) (RowArea a b y) ↔
            ∀ p, c.Contains p → RowArea a b y p → c.packed? p = some (c.stored value))) ∧
        ∀ corner width height, c.putRect corner width height value = c) := by
  refine ⟨fun hnarrow a b y => ?rows, fun hnarrow corner width height hx hy => ?rectangles, fun hwide => ⟨?wideRows, ?wide⟩⟩
  case rows => exact ⟨painted_rowArea hc hnarrow a b y value, putRow_eq_fold_put hc hnarrow a b y value⟩
  case rectangles =>
    have hreach := painted_rectangleReach hc hnarrow hx hy width height value
    have hwhole := hreach.extend_iff fun p hp => hp.area
    refine ⟨hreach, hwhole, fun hrows hwidth hheight => hwhole.mpr fun p hp harea hnot => ?_⟩
    exact absurd (rectangleReach_of_uncut hrows hwidth hheight hp harea) hnot
  case wideRows =>
    intro a b y
    rw [putRow_of_wide hwide]
    refine ⟨rfl, ((Painted.refl c _).extend_iff fun _ => False.elim).trans ?_⟩
    simp only [not_false_eq_true, true_implies]
  case wide => exact fun corner width height => putRect_of_wide hwide corner width height value

/-- A rectangle that ends behind the canvas goes missing when it begins too far before it, and a row when the canvas has
one column more than there are coordinates of columns. -/
theorem painted_rectangle_iff_of_far_corners :
    let c : Canvas := blank 2 1 .rgba4444 false
    let widest : Canvas := blank 2147483648 1 .rgba2222 false
    let wide : Canvas := blank 2147483649 1 .rgba2222 false
    c.Valid ∧ widest.Valid ∧ wide.Valid ∧ c.Narrow ∧ widest.Narrow ∧ wide.Wide ∧
      Coordinate.InRange Coordinate.least ∧ Coordinate.InRange (-5) ∧ c.stored 65537 = 1 ∧
      ¬ c.Painted (c.putRect ⟨Coordinate.least, 0⟩ 4294967295 1 65537) (fun _ => c.stored 65537)
        (RectangleArea ⟨Coordinate.least, 0⟩ 4294967295 1) ∧
      c.Painted (c.putRect ⟨-5, -5⟩ 4294967295 4294967295 65537) (fun _ => c.stored 65537)
        (RectangleArea ⟨-5, -5⟩ 4294967295 4294967295) ∧
      c.putRow 9 1 0 65537 = (Span.between 9 1).fold (fun d x => d.put ⟨x, 0⟩ 65537) c ∧
      widest.putRow 0 9 0 255 = (Span.between 0 9).fold (fun d x => d.put ⟨x, 0⟩ 255) widest ∧
      wide.putRow 0 9 0 255 = wide := by
  intro c widest wide
  have hc : c.Valid := valid_blank (by decide) (by decide) _ _
  have hwidest : widest.Valid := valid_blank (by decide) (by decide) _ _
  have hwide : wide.Valid := valid_blank (by decide) (by decide) _ _
  have hnarrow : c.Narrow := by decide
  have hlimit : widest.Narrow := by decide
  have hbroad : wide.Wide := ⟨by decide, by decide⟩
  obtain ⟨hrows, hrectangles, -⟩ := painted_rectangle_iff hc 65537
  obtain ⟨hlongRows, -, -⟩ := painted_rectangle_iff hwidest 255
  obtain ⟨-, -, hnothing⟩ := painted_rectangle_iff hwide 255
  refine ⟨hc, hwidest, hwide, hnarrow, hlimit, hbroad, by decide, by decide, by decide, fun hpainted => ?_, ?_,
    (hrows hnarrow 9 1 0).2, (hlongRows hlimit 0 9 0).2, ((hnothing hbroad).1 0 9 0).1⟩
  · have hfar := (hrectangles hnarrow ⟨Coordinate.least, 0⟩ 4294967295 1 (by decide) (by decide)).2.1.mp hpainted
    exact absurd (hfar ⟨0, 0⟩ (by decide) (by simp [RectangleArea, Coordinate.least])
      (by simp [RectangleReach, RectangleArea, Coordinate.least])) (by decide)
  · exact (hrectangles hnarrow ⟨-5, -5⟩ 4294967295 4294967295 (by decide) (by decide)).2.2 (by decide) (.inr (by decide))
      (.inr (by decide))

end Canvas

end Framecast
