import Framecast.Proofs.Canvas.Rectangles
import Framecast.Proofs.Display.Refusals
import Framecast.Proofs.Shape.Discs

/-!
# Discs on surfaces

Discs around one centre lie inside each other in the order of their radii, on the root and on overlays, whose discs have
half the radius. A negative radius leaves no mark, but for one: half of minus one is zero, so that on an overlay the
centre is painted. On a canvas too wide for coordinates the rows of a disc go missing, and only its centre is painted,
when the radius is zero.
-/

namespace Framecast

variable {radius radius' i j : Int} {center p : Point}

/-! ## Discs and their radii -/

theorem InDisc.mono (hradius : 0 ≤ radius) (hle : radius ≤ radius') (h : InDisc radius i j) : InDisc radius' i j := by
  have hsquare : radius * radius ≤ radius' * radius' := Int.mul_le_mul hle hle hradius (by omega)
  simp only [InDisc] at h ⊢
  omega

theorem DiscArea.mono (hradius : 0 < radius) (hle : radius ≤ radius') (h : DiscArea radius center p) :
    DiscArea radius' center p := by
  obtain ⟨hin, hgap⟩ := h
  refine ⟨hin.mono (Int.le_of_lt hradius) hle, fun hmissing => hgap ⟨?_, hmissing.2⟩⟩
  omega

theorem discArea_center (hradius : 0 < radius) (center : Point) : DiscArea radius center center := by
  have hsquare : 0 < radius * radius := Int.mul_pos hradius hradius
  refine ⟨?_, fun hmissing => ?_⟩
  · simpa [InDisc] using hsquare
  · have hrow := congrArg Point.y hmissing.2
    simp only at hrow
    omega

/-! ## On a canvas -/

namespace Canvas

variable {c : Canvas}

/-- The points that a plain disc covers on a canvas, whatever the radius. -/
def DiscReach (c : Canvas) (radius : Int) (center p : Point) : Prop :=
  (radius = 0 ∧ p = center) ∨ (0 < radius ∧ c.Narrow ∧ DiscArea radius center p)

theorem fillFrom_of_wide (h : c.Wide) (center : Point) (value steps : Nat) (s : RimStep) :
    RimStep.fillFrom center value steps s c = c := by
  have hrow := fun a b y => putRow_of_wide h a b y value
  induction steps generalizing s with
  | zero => rfl
  | succ steps ih =>
      have hfill : s.fill c center value = c := by simp only [RimStep.fill, hrow, ite_self]
      rw [RimStep.fillFrom, hfill, ih, ite_self]

theorem painted_discReach (hc : c.Valid) (hwidth : c.Narrow ∨ c.Wide) (radius : Int) (center : Point) (color : Rgba) :
    c.Painted (c.fillDisc center radius color) (fun _ => c.format.pack color) (c.DiscReach radius center) := by
  rcases Int.lt_trichotomy radius 0 with hneg | rfl | hpos
  · rw [fillDisc, if_pos hneg]
    refine (Painted.refl c _).congr fun p _ => ?_
    simp only [DiscReach, false_iff]
    omega
  · rw [fillDisc, if_neg (by decide), if_pos rfl]
    exact (painted_put hc (c.format.pack_lt color) center).congr fun p _ => by simp [DiscReach]
  · have hne : radius ≠ 0 := by omega
    rcases hwidth with hnarrow | hwide
    · exact (painted_fillDisc_of_narrow hc hnarrow hpos center color).congr fun p _ => by
        simp [DiscReach, hne, hpos, hnarrow]
    · rw [fillDisc, if_neg (by omega), if_neg hne, fillFrom_of_wide hwide]
      exact (Painted.refl c _).congr fun p _ => by simp [DiscReach, hne, hwide.not_narrow]

theorem DiscReach.mono (hnarrow : c.Narrow) (hle : radius ≤ radius') (h : c.DiscReach radius center p) :
    c.DiscReach radius' center p := by
  rcases h with ⟨rfl, rfl⟩ | ⟨hpos, -, harea⟩
  · rcases Int.lt_or_eq_of_le hle with hpos' | rfl
    · exact .inr ⟨hpos', hnarrow, discArea_center hpos' p⟩
    · exact .inl ⟨rfl, rfl⟩
  · exact .inr ⟨by omega, hnarrow, harea.mono hpos hle⟩

theorem Wide.discReach_iff (hwide : c.Wide) : c.DiscReach radius center p ↔ radius = 0 ∧ p = center := by
  simp [DiscReach, hwide.not_narrow]

theorem discReach_iff_of_nonpos (hradius : radius ≤ 0) : c.DiscReach radius center p ↔ radius = 0 ∧ p = center := by
  simp [DiscReach, Int.not_lt.mpr hradius]

end Canvas

/-! ## On a surface -/

namespace Display

variable {d : Display} {surface : Surface} {c : Canvas} {pen : Pen}

theorem discRadius_mono (surface : Surface) (hle : radius ≤ radius') :
    discRadius surface radius ≤ discRadius surface radius' := by
  cases surface with
  | root => exact hle
  | overlay => exact Int.tdiv_le_tdiv (by decide) hle

theorem discRadius_nonpos (surface : Surface) (hradius : radius ≤ 0) : discRadius surface radius ≤ 0 := by
  have hle := discRadius_mono surface hradius
  cases surface <;> exact hle

theorem discRadius_eq_zero_iff_of_neg (hneg : radius < 0) :
    discRadius surface radius = 0 ↔ surface ≠ .root ∧ radius = -1 := by
  cases surface with
  | root => simp [discRadius, Int.ne_of_lt hneg]
  | overlay h =>
      -- The fraction is cut off, so that the half of minus one is zero.
      have hhalf : radius.tdiv 2 = -(-radius / 2) := by
        rw [← Int.tdiv_eq_ediv_of_nonneg (by omega), Int.neg_tdiv, Int.neg_neg]
      have hsurface : Surface.overlay h ≠ .root := nofun
      simp only [discRadius, hhalf, hsurface, true_and, ne_eq, not_false_eq_true]
      omega

theorem painted_drawDisc (hcanvas : d.screen.canvas? surface = some c) (hvisible : d.screen.visible surface)
    (hc : c.Valid) (hplain : c.antialias = false) (hwidth : c.Narrow ∨ c.Wide) (pen : Pen) (center : Point)
    (radius : Int) :
    ∃ e, (d.drawDisc surface pen center radius).2.screen.canvas? surface = some e ∧
      c.Painted e (fun _ => c.format.pack pen.foreground) (c.DiscReach (discRadius surface radius) center) := by
  refine ⟨pen.disc c center (discRadius surface radius), ?_, ?_⟩
  · rw [drawDisc, draw, if_pos hvisible]
    exact Screen.canvas?_draw_self hcanvas fun c => pen.disc c center (discRadius surface radius)
  · simp only [Pen.disc, hplain, Bool.false_eq_true, ↓reduceIte]
    exact Canvas.painted_discReach hc hwidth _ _ _

theorem canvas?_drawDisc_other {surface' : Surface} (hother : surface' ≠ surface) (center : Point) :
    (d.drawDisc surface pen center radius).2.screen.canvas? surface' = d.screen.canvas? surface' := by
  rw [drawDisc, draw]
  split
  · exact (d.screen.canvas?_draw surface (fun c => pen.disc c center (discRadius surface radius)) surface').trans
      (if_neg hother)
  · rfl

/-- What a disc marks on a visible surface lies inside what a larger one marks, as long as columns are coordinates. On
wider canvases only a radius of zero leaves a mark. Negative radii leave none, but for minus one on an overlay, which
marks the centre. -/
theorem drawDisc_nested (hcanvas : d.screen.canvas? surface = some c) (hvisible : d.screen.visible surface)
    (hc : c.Valid) (hplain : c.antialias = false) (hwidth : c.Narrow ∨ c.Wide) (pen : Pen) (center : Point) :
    let mark (radius : Int) := c.DiscReach (discRadius surface radius) center
    (∀ radius,
      let (answer, drawn) := d.drawDisc surface pen center radius
      answer = .ok () ∧
        (∃ e, drawn.screen.canvas? surface = some e ∧
          c.Painted e (fun _ => c.format.pack pen.foreground) (mark radius)) ∧
        ∀ surface' ≠ surface, drawn.screen.canvas? surface' = d.screen.canvas? surface') ∧
      (c.Narrow → ∀ radius radius', radius ≤ radius' → ∀ p, mark radius p → mark radius' p) ∧
      (c.Wide → ∀ radius p, mark radius p ↔ discRadius surface radius = 0 ∧ p = center) ∧
      ∀ radius < 0, ∀ p, mark radius p ↔ (surface ≠ .root ∧ radius = -1) ∧ p = center := by
  intro mark
  refine ⟨fun radius => ⟨?answer, ?marked, ?others⟩, ?nested, ?wide, ?negative⟩
  case answer => exact (d.guards_draw surface _).granted (Option.isSome_of_eq_some hcanvas)
  case marked => exact painted_drawDisc hcanvas hvisible hc hplain hwidth pen center radius
  case others => exact fun surface' hother => canvas?_drawDisc_other hother center
  case nested => exact fun hnarrow radius radius' hle p => Canvas.DiscReach.mono hnarrow (discRadius_mono surface hle)
  case wide => exact fun hwide radius p => hwide.discReach_iff
  case negative =>
    intro radius hneg p
    rw [← discRadius_eq_zero_iff_of_neg hneg]
    exact Canvas.discReach_iff_of_nonpos (discRadius_nonpos surface (Int.le_of_lt hneg))

/-- On an overlay a radius of minus one marks the centre, and on the root below it nothing. -/
theorem drawDisc_nested_of_minus_one :
    let root : Canvas := .blank 3 3 .rgba4444 false
    let bare : Display := ⟨.ofRoot root, .upTo 18, .empty, Png.decoder, .start, true, true, .default⟩
    let d := (bare.createOverlay .root ⟨0, 0⟩ 3 3).2
    let overlay : Surface := .overlay ⟨⟨0, by decide⟩, 0⟩
    let pen : Pen := ⟨.white, .black, 1⟩
    let center : Point := ⟨1, 1⟩
    d.screen.canvas? overlay = some root ∧ d.screen.visible overlay ∧ d.screen.canvas? .root = some root ∧ root.Valid ∧
      root.Narrow ∧
      (∃ e, (d.drawDisc overlay pen center (-1)).2.screen.canvas? overlay = some e ∧
        e.packed? center = some (root.format.pack .white) ∧ root.packed? center = some 0) ∧
      (∃ e, (d.drawDisc .root pen center (-1)).2.screen.canvas? .root = some e ∧ e.packed? center = some 0) ∧
      ∀ p, root.DiscReach (discRadius overlay 3) center p → root.DiscReach (discRadius overlay 4) center p := by
  intro root bare d overlay pen center
  have hroot : root.Valid := Canvas.valid_blank (by decide) (by decide) _ _
  have hnarrow : root.Narrow := by decide
  have hbelow : d.screen.canvas? .root = some root := rfl
  have habove : d.screen.canvas? overlay = some root := rfl
  have hvisible : d.screen.visible overlay := by decide
  have hzero : root.packed? center = some 0 := by decide
  obtain ⟨honOverlay, hnested, -, hnegative⟩ := drawDisc_nested habove hvisible hroot rfl (.inl hnarrow) pen center
  obtain ⟨honRoot, -, -, hnone⟩ := drawDisc_nested hbelow rfl hroot rfl (.inl hnarrow) pen center
  obtain ⟨-, ⟨e, he, hpainted⟩, -⟩ := honOverlay (-1)
  obtain ⟨-, ⟨e', he', hunpainted⟩, -⟩ := honRoot (-1)
  refine ⟨habove, hvisible, hbelow, hroot, hnarrow, ⟨e, he, ?_, hzero⟩, ⟨e', he', ?_⟩,
    hnested hnarrow 3 4 (by decide)⟩
  · exact hpainted.inside center (by decide) ((hnegative (-1) (by decide) center).mpr ⟨⟨nofun, rfl⟩, rfl⟩)
  · rw [hunpainted.outside center fun hmark => ((hnone (-1) (by decide) center).mp hmark).1.1 rfl]
    exact hzero

end Display

end Framecast
