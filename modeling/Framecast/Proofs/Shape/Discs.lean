import Framecast.Proofs.Canvas.Writes
import Framecast.Shape.Disc

/-!
# Plain discs

Which pixels a plain disc covers. `RimStep.OnRim` is the invariant of the walk around the rim: at each height the walk
knows the last column that still lies in the disc. From the rows that one step fills follows what the rest of the walk
fills, and from it the whole disc. The first step leaves out the rows above the centre. The second one fills them,
except in the disc of radius one.
-/

namespace Framecast

variable {radius i j a b : Int}

theorem mul_pred_le_mul_pred (ha : 0 ≤ a) (h : a ≤ b) : a * (a - 1) ≤ b * (b - 1) := by
  by_cases hsum : 0 ≤ a + b - 1
  · have hproduct : 0 ≤ (b - a) * (a + b - 1) := Int.mul_nonneg (by omega) hsum
    grind
  · obtain ⟨rfl, rfl⟩ : a = 0 ∧ b = 0 := by omega
    exact Int.le_refl _

/-- The distance from the centre, measured along the longer and the shorter direction, is within the radius. -/
def InDisc (radius i j : Int) : Prop :=
  let longer : Int := max i.natAbs j.natAbs
  let shorter : Int := min i.natAbs j.natAbs
  longer * (longer - 1) + shorter * shorter < radius * radius

instance (radius i j : Int) : Decidable (InDisc radius i j) := inferInstanceAs (Decidable (_ < _))

theorem inDisc_of_le (h : a * (a - 1) + b * b < radius * radius) (hlonger : max (i.natAbs : Int) j.natAbs ≤ a)
    (hshorter : min (i.natAbs : Int) j.natAbs ≤ b) : InDisc radius i j := by
  have hpred := mul_pred_le_mul_pred (by omega) hlonger
  have hsquare := Int.mul_le_mul hshorter hshorter (by omega) (by omega)
  simp only [InDisc]
  omega

theorem not_inDisc_of_le (h : radius * radius ≤ a * (a - 1) + b * b) (ha : 0 ≤ a) (hb : 0 ≤ b)
    (hlonger : a ≤ max (i.natAbs : Int) j.natAbs) (hshorter : b ≤ min (i.natAbs : Int) j.natAbs) :
    ¬ InDisc radius i j := by
  have hpred := mul_pred_le_mul_pred ha hlonger
  have hsquare := Int.mul_le_mul hshorter hshorter hb (by omega)
  simp only [InDisc]
  omega

namespace RimStep

/-- At its height the walk reaches as far as the disc does, and the error says whether one row further it still does. -/
structure OnRim (radius : Int) (s : RimStep) : Prop where
  height : 0 ≤ s.height
  error : s.error = s.reach * (s.reach - 1) + (s.height + 1) * (s.height + 1) - radius * radius
  inside : s.height ≤ s.reach → s.reach * (s.reach - 1) + s.height * s.height < radius * radius
  outside : radius * radius ≤ (s.reach + 1) * (s.reach + 1 - 1) + s.height * s.height

variable {s : RimStep}

@[simp] theorem reach_start (radius : Int) : (start radius).reach = radius := rfl

@[simp] theorem height_start (radius : Int) : (start radius).height = 0 := rfl

@[simp] theorem error_start (radius : Int) : (start radius).error = 1 - radius := rfl

@[simp] theorem height_next (s : RimStep) : s.next.height = s.height + 1 := by
  simp only [next]
  split <;> rfl

@[simp] theorem reach_next (s : RimStep) : s.next.reach = if s.error < 0 then s.reach else s.reach - 1 := by
  simp only [next]
  split <;> rfl

theorem onRim_start (h : 0 < radius) : (start radius).OnRim radius := by
  constructor <;> simp only [reach_start, height_start, error_start]
  · exact Int.le_refl 0
  · grind
  · grind
  · grind

theorem OnRim.next (h : s.OnRim radius) (hreach : s.height ≤ s.reach) : s.next.OnRim radius := by
  obtain ⟨hheight, herror, hinside, houtside⟩ := h
  have hinside := hinside hreach
  simp only [RimStep.next]
  split
  · constructor <;> simp only
    · omega
    · grind
    · grind
    · grind
  · constructor <;> simp only
    · omega
    · grind
    · grind
    · grind

/-- In the row at its height the disc goes as far as the walk reaches. -/
theorem OnRim.inDisc_iff_of_height (h : s.OnRim radius) (hreach : s.height ≤ s.reach) (hj : j.natAbs = s.height) :
    InDisc radius i j ↔ i.natAbs ≤ s.reach := by
  constructor
  · intro hin
    refine Decidable.not_not.mp fun hfar => ?_
    exact not_inDisc_of_le h.outside (by have := h.height; omega) h.height (by omega) (by omega) hin
  · intro hnear
    exact inDisc_of_le (h.inside hreach) (by omega) (by omega)

theorem OnRim.inDisc_of_reach (h : s.OnRim radius) (hreach : s.height ≤ s.reach) (hj : j.natAbs = s.reach)
    (hi : i.natAbs ≤ s.height) : InDisc radius i j :=
  inDisc_of_le (h.inside hreach) (by omega) (by omega)

/-- Where the walk turns inwards, the disc goes no further in the row at its reach. -/
theorem OnRim.le_of_turn (h : s.OnRim radius) (hreach : s.height ≤ s.reach) (herror : ¬ s.error < 0)
    (hj : j.natAbs = s.reach) (hin : InDisc radius i j) : i.natAbs ≤ s.height := by
  have hheight := h.height
  rw [h.error] at herror
  refine Decidable.not_not.mp fun hfar => ?_
  by_cases hlong : i.natAbs ≤ s.reach
  · exact not_inDisc_of_le (by omega) (a := s.reach) (b := s.height + 1) (by omega) (by omega) (by omega) (by omega) hin
  · exact not_inDisc_of_le h.outside (by omega) hheight (by omega) (by omega) hin

theorem OnRim.natAbs_le (h : s.OnRim radius) (hheight : s.height = 0) (hreach : 0 ≤ s.reach)
    (hin : InDisc radius i j) : i.natAbs ≤ s.reach ∧ j.natAbs ≤ s.reach := by
  have houtside := h.outside
  rw [hheight] at houtside
  refine Decidable.not_not.mp fun hfar => ?_
  exact not_inDisc_of_le houtside (by omega) (Int.le_refl 0) (by omega) (by omega) hin

/-! ## What the walk fills -/

variable {c : Canvas} {center : Point} {value : Nat} {steps : Nat}

/-- The points of a row as seen from the centre, up to a distance on both sides. -/
def Row (center : Point) (row half : Int) (p : Point) : Prop :=
  p.y - center.y = row ∧ ((p.x - center.x).natAbs : Int) ≤ half

/-- The rows at the height and at the reach of a step, below and, from the second step on, above the centre. -/
def Filled (s : RimStep) (center p : Point) : Prop :=
  Row center s.height s.reach p ∨ Row center s.reach s.height p ∨
    (s.height ≠ 0 ∧ (Row center (-s.height) s.reach p ∨ Row center (-s.reach) s.height p))

/-- The rows of the disc from the height of a step to its reach. -/
def Ahead (radius : Int) (s : RimStep) (center p : Point) : Prop :=
  InDisc radius (p.x - center.x) (p.y - center.y) ∧ s.height ≤ (p.y - center.y).natAbs ∧
    (p.y - center.y).natAbs ≤ s.reach

/-- A step below the first one leaves the rest of the disc to the steps behind it. -/
theorem OnRim.filled_or_ahead_iff (h : s.OnRim radius) (hreach : s.height ≤ s.reach) (hheight : 0 < s.height)
    (center p : Point) : s.Filled center p ∨ s.next.Ahead radius center p ↔ s.Ahead radius center p := by
  have hlow (hj : (p.y - center.y).natAbs = s.height) := h.inDisc_iff_of_height (i := p.x - center.x) hreach hj
  have hhigh (hj : (p.y - center.y).natAbs = s.reach) := h.inDisc_of_reach (i := p.x - center.x) hreach hj
  have hturn (herror : ¬ s.error < 0) (hj : (p.y - center.y).natAbs = s.reach) :=
    h.le_of_turn (i := p.x - center.x) hreach herror hj
  simp only [Filled, Ahead, Row, height_next, reach_next]
  by_cases hin : InDisc radius (p.x - center.x) (p.y - center.y)
  · simp only [hin, true_iff, true_and, forall_const] at hlow hturn ⊢
    split <;> omega
  · simp only [hin, false_iff, imp_false, false_and, or_false, iff_false] at hlow hhigh ⊢
    omega

theorem painted_row (hc : c.Valid) (hnarrow : c.Narrow)
    (hvalue : value < LittleEndian.range c.format.bytesPerPixel) {half y : Int} (hhalf : 0 ≤ half) (row : Int)
    (hy : y = center.y + row) :
    c.Painted (c.putRow (center.x - half) (center.x + half) y value) (fun _ => value) (Row center row half) :=
  (Canvas.painted_putRow hc hnarrow hvalue _ _ _).congr fun p _ => by
    simp only [Row, Span.mem_between]
    omega

theorem painted_fill (hc : c.Valid) (hnarrow : c.Narrow)
    (hvalue : value < LittleEndian.range c.format.bytesPerPixel) (hheight : 0 ≤ s.height)
    (hreach : s.height ≤ s.reach) :
    c.Painted (s.fill c center value) (fun _ => value) (s.Filled center) := by
  have hrow (d : Canvas) (hd : c.SameLayout d) {half y : Int} (hhalf : 0 ≤ half) (row : Int)
      (hy : y = center.y + row) : d.Painted (d.putRow (center.x - half) (center.x + half) y value) (fun _ => value)
        (Row center row half) :=
    painted_row (hd.valid hc) (hd.narrow hnarrow) (by rwa [hd.format_eq]) hhalf row hy
  have habove (d : Canvas) (hd : c.SameLayout d) {half y : Int} (hhalf : 0 ≤ half) (row : Int)
      (hy : y = center.y + row) :
      d.Painted (if s.height = 0 then d else d.putRow (center.x - half) (center.x + half) y value) (fun _ => value)
        (fun p => s.height ≠ 0 ∧ Row center row half p) := by
    split
    · rename_i hzero
      exact (Canvas.Painted.refl d _).congr fun p _ => by simp only [hzero, ne_eq, not_true, false_and]
    · rename_i hzero
      exact (hrow d hd hhalf row hy).congr fun p _ => by simp only [hzero, ne_eq, not_false_eq_true, true_and]
  have hwide := hrow c (.refl c) (Int.le_trans hheight hreach) s.height rfl
  have hwides := hwide.trans (habove _ hwide.layout (Int.le_trans hheight hreach) (-s.height) Int.sub_eq_add_neg)
  simp only [fill]
  split
  · exact hwides.congr fun p _ => by simp only [Filled, Row]; omega
  · have hnarrow := hrow _ hwides.layout hheight s.reach rfl
    have hnarrows := hnarrow.trans
      (habove _ (hwides.layout.trans hnarrow.layout) hheight (-s.reach) Int.sub_eq_add_neg)
    exact (hwides.trans hnarrows).congr fun p _ => by simp only [Filled, Row]; omega

/-- From a step below the first one on, the walk fills the rows of the disc that are still ahead. -/
theorem painted_fillFrom (hc : c.Valid) (hnarrow : c.Narrow)
    (hvalue : value < LittleEndian.range c.format.bytesPerPixel) (h : s.OnRim radius) (hheight : 0 < s.height)
    (hsteps : s.reach < s.height + steps) :
    c.Painted (fillFrom center value steps s c) (fun _ => value) (s.Ahead radius center) := by
  have hpast (s : RimStep) (c : Canvas) (hend : s.reach < s.height) :
      c.Painted c (fun _ => value) (s.Ahead radius center) :=
    (Canvas.Painted.refl c _).congr fun p _ => ⟨False.elim, by rintro ⟨-, hlow, hhigh⟩; omega⟩
  induction steps generalizing s c with
  | zero => exact hpast s c (by omega)
  | succ steps ih =>
      simp only [fillFrom]
      split
      · rename_i hend
        exact hpast s c hend
      · rename_i hreach
        have hreach : s.height ≤ s.reach := by omega
        have hfill : c.Painted (s.fill c center value) _ _ := painted_fill hc hnarrow hvalue h.height hreach
        have hrest := ih (hfill.layout.valid hc) (hfill.layout.narrow hnarrow)
          (by rwa [hfill.layout.format_eq]) (h.next hreach) (by rw [height_next]; omega)
          (by rw [height_next, reach_next]; split <;> omega)
        exact (hfill.trans hrest).congr fun p _ => h.filled_or_ahead_iff hreach hheight center p

end RimStep

/-- In the disc of radius one no point above or below the centre is off its column. -/
theorem eq_zero_of_inDisc_one (h : InDisc 1 i j) (hj : j ≠ 0) : i = 0 := by
  refine Decidable.not_not.mp fun hi => ?_
  exact not_inDisc_of_le (a := 1) (b := 1) (by decide) (by decide) (by decide) (by omega) (by omega) h

theorem inDisc_neg : InDisc radius (-i) j ↔ InDisc radius i j := by
  simp only [InDisc, Int.natAbs_neg]

theorem inDisc_swap : InDisc radius j i ↔ InDisc radius i j := by
  simp only [InDisc, Int.max_comm, Int.min_comm]

/-- The points that a plain disc fills: those of the disc, but for the one above the centre when the radius is one. -/
def DiscArea (radius : Int) (center p : Point) : Prop :=
  InDisc radius (p.x - center.x) (p.y - center.y) ∧ ¬ (radius = 1 ∧ p = ⟨center.x, center.y - 1⟩)

/-- The first step and those behind it fill the disc, but for the point above the centre when the radius is one. -/
theorem RimStep.start_filled_or_ahead_iff (hradius : 0 < radius) (center p : Point) :
    (start radius).Filled center p ∨ (start radius).next.Ahead radius center p ↔ DiscArea radius center p := by
  have hstart := onRim_start hradius
  have hreach : (start radius).height ≤ (start radius).reach := Int.le_of_lt hradius
  have hmiddle := hstart.inDisc_iff_of_height (i := p.x - center.x) (j := p.y - center.y) hreach
  have hend := hstart.inDisc_of_reach (i := p.x - center.x) (j := p.y - center.y) hreach
  have hbound := hstart.natAbs_le (i := p.x - center.x) (j := p.y - center.y) rfl (Int.le_of_lt hradius)
  have hone := @eq_zero_of_inDisc_one (p.x - center.x) (p.y - center.y)
  obtain ⟨x, y⟩ := p
  simp only [height_next, reach_next, height_start, reach_start, error_start, Filled, Ahead, Row, DiscArea,
    Point.mk.injEq] at hmiddle hend hbound hone ⊢
  by_cases hin : InDisc radius (x - center.x) (y - center.y)
  · by_cases hradius' : radius = 1
    · subst hradius'
      simp only [hin, true_and, true_implies, true_iff] at hmiddle hbound hone ⊢
      omega
    · have herror : 1 - radius < 0 := by omega
      simp only [hin, hradius', herror, true_and, true_implies, true_iff, false_and, not_false_eq_true, iff_true, ne_eq,
        not_true_eq_false, or_false, ↓reduceIte] at hmiddle hbound ⊢
      omega
  · simp only [hin, false_and, iff_false, false_iff, imp_false, or_false, ne_eq, not_true_eq_false] at hmiddle hend ⊢
    omega

namespace Canvas

variable {c : Canvas}

theorem fillDisc_eq (hradius : 0 < radius) (center : Point) (color : Rgba) :
    c.fillDisc center radius color = RimStep.fillFrom center (c.format.pack color) radius.toNat
      (RimStep.start radius).next ((RimStep.start radius).fill c center (c.format.pack color)) := by
  have hreach : ¬ (RimStep.start radius).reach < (RimStep.start radius).height := Int.not_lt.mpr (Int.le_of_lt hradius)
  rw [fillDisc, if_neg (by omega), if_neg (by omega), RimStep.fillFrom, if_neg hreach]

theorem painted_fillDisc_of_narrow (hc : c.Valid) (hnarrow : c.Narrow) (hradius : 0 < radius) (center : Point)
    (color : Rgba) :
    c.Painted (c.fillDisc center radius color) (fun _ => c.format.pack color) (DiscArea radius center) := by
  have hvalue := c.format.pack_lt color
  have hreach : (RimStep.start radius).height ≤ (RimStep.start radius).reach := Int.le_of_lt hradius
  have hfill : c.Painted ((RimStep.start radius).fill c center (c.format.pack color)) _ _ :=
    RimStep.painted_fill hc hnarrow hvalue (Int.le_refl 0) hreach
  have hrest := @RimStep.painted_fillFrom radius _ _ center _ radius.toNat (hfill.layout.valid hc)
    (hfill.layout.narrow hnarrow) (by rwa [hfill.layout.format_eq])
    ((RimStep.onRim_start hradius).next hreach) (by simp)
    (by simp only [RimStep.height_next, RimStep.reach_next, RimStep.height_start, RimStep.reach_start]; split <;> omega)
  rw [fillDisc_eq hradius]
  exact (hfill.trans hrest).congr fun p _ => RimStep.start_filled_or_ahead_iff hradius center p

theorem painted_fillDisc (hc : c.Valid) (hfits : c.FitsCoordinates) (hradius : 0 < radius) (center : Point)
    (color : Rgba) :
    c.Painted (c.fillDisc center radius color) (fun _ => c.format.pack color) (DiscArea radius center) :=
  painted_fillDisc_of_narrow hc hfits.narrow hradius center color

/-- A plain disc is solid and the same in all octants, unless its radius is one: then the point above the centre keeps
what it held, and the disc is whole only where this makes no difference. -/
theorem painted_disc_iff (hc : c.Valid) (hfits : c.FitsCoordinates) (hradius : 0 < radius) (center : Point)
    (color : Rgba) :
    (c.Painted (c.fillDisc center radius color) (fun _ => c.format.pack color)
        (fun p => InDisc radius (p.x - center.x) (p.y - center.y)) ↔
      (radius = 1 → c.Contains ⟨center.x, center.y - 1⟩ →
        c.packed? ⟨center.x, center.y - 1⟩ = some (c.format.pack color))) ∧
      (radius = 1 → c.Painted (c.fillDisc center radius color) (fun _ => c.format.pack color)
        (fun p => InDisc radius (p.x - center.x) (p.y - center.y) ∧ p ≠ ⟨center.x, center.y - 1⟩)) ∧
      ∀ i j, (InDisc radius (-i) j ↔ InDisc radius i j) ∧ (InDisc radius j i ↔ InDisc radius i j) := by
  have hdrawn := painted_fillDisc hc hfits hradius center color
  refine ⟨⟨?whole, ?solid⟩, ?dented, fun i j => ⟨inDisc_neg, inDisc_swap⟩⟩
  case whole =>
    rintro hpainted rfl habove
    have hin : InDisc 1 (center.x - center.x) (center.y - 1 - center.y) := by
      rw [Int.sub_self, show center.y - 1 - center.y = -1 by omega]
      decide
    rw [← hpainted.inside _ habove hin]
    exact (hdrawn.outside _ fun harea => harea.2 ⟨rfl, rfl⟩).symm
  case solid =>
    intro habove
    refine ⟨hdrawn.layout, fun p hp hin => ?_, fun p hout => hdrawn.outside p fun harea => hout harea.1⟩
    by_cases harea : DiscArea radius center p
    · exact hdrawn.inside p hp harea
    · obtain ⟨hone, rfl⟩ := Decidable.not_not.mp fun hnot => harea ⟨hin, hnot⟩
      rw [hdrawn.outside _ harea]
      exact habove hone hp
  case dented =>
    rintro rfl
    exact hdrawn.congr fun p _ => by simp only [DiscArea, true_and]

/-- The disc of radius one misses a point, and the one of radius two does not. -/
theorem painted_disc_iff_of_two_radii :
    let c : Canvas := ⟨3, 3, .rgba8888, false, Buffer.zeros 36⟩
    let value := c.format.pack .white
    c.Valid ∧ c.FitsCoordinates ∧
      ¬ c.Painted (c.fillDisc ⟨1, 1⟩ 1 .white) (fun _ => value) (fun p => InDisc 1 (p.x - 1) (p.y - 1)) ∧
      c.Painted (c.fillDisc ⟨1, 1⟩ 2 .white) (fun _ => value) (fun p => InDisc 2 (p.x - 1) (p.y - 1)) := by
  intro c value
  have hvalid : c.Valid := ⟨by decide, by decide, by decide⟩
  have hfits : c.FitsCoordinates := ⟨by decide, by decide⟩
  refine ⟨hvalid, hfits, fun hpainted => ?_, ?_⟩
  · have hvalue := (painted_disc_iff hvalid hfits (by decide) ⟨1, 1⟩ .white).1.mp hpainted rfl (by decide)
    exact absurd hvalue (by decide)
  · exact (painted_disc_iff hvalid hfits (by decide) ⟨1, 1⟩ .white).1.mpr fun hone => by cases hone

end Canvas

end Framecast
