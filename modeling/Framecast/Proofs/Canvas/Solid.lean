import Framecast.Proofs.Canvas.Writes

/-!
# Drawing on a solid canvas

A canvas is solid when every pixel on it has full alpha. Shapes in solid colors overwrite pixels with solid ones or mix
them into what is there, and neither makes a pixel less than solid. The invariant is `Canvas.SolidOutside`: only the
pixels of a given set may lack full alpha. A text on a background makes such holes and closes them again.
-/

namespace Framecast

theorem Rgba.alpha_paintedOver {above below : Rgba} (h : below.a = 255) : (above.paintedOver below).a = 255 := by
  have halpha := above.a.toNat_lt
  have hsum : min (above.a.toNat + 255 * (255 - above.a.toNat) / 255) 255 = 255 := by omega
  simp only [paintedOver, h, UInt8.reduceToNat, hsum]
  rfl

/-- The packed number of a color of full alpha. -/
structure PixelFormat.Solid (f : PixelFormat) (value : Nat) : Prop where
  lt_range : value < LittleEndian.range f.bytesPerPixel
  alpha_eq : (f.unpack value).a = 255

theorem PixelFormat.solid_pack (f : PixelFormat) {color : Rgba} (h : color.a = 255) : f.Solid (f.pack color) :=
  ⟨f.pack_lt color, f.unpack_pack_alpha_full h⟩

namespace Canvas

/-- Every pixel has full alpha. -/
def Solid (c : Canvas) : Prop := ∀ p color, c.color? p = some color → color.a = 255

/-- A valid canvas of a format on which only the pixels of a set may lack full alpha. -/
structure SolidOutside (format : PixelFormat) (holes : Point → Prop) (c : Canvas) : Prop where
  valid : c.Valid
  format_eq : c.format = format
  alpha_eq : ∀ p color, ¬ holes p → c.color? p = some color → color.a = 255

namespace SolidOutside

variable {c d : Canvas} {format : PixelFormat} {holes : Point → Prop} {value : Nat} {color : Rgba}

/-! ## Single pixels and rows -/

/-- Painting in solid colors closes holes, and painting in others makes them. -/
theorem painted {holes' : Point → Prop} {picture : Point → Nat} {S : Point → Prop} (h : c.SolidOutside format holes)
    (hd : c.Painted d picture S) (hpicture : ∀ p, ¬ holes' p → S p → (format.unpack (picture p)).a = 255)
    (hrest : ∀ p, ¬ holes' p → ¬ S p → ¬ holes p) : d.SolidOutside format holes' where
  valid := hd.layout.valid h.valid
  format_eq := hd.layout.format_eq.trans h.format_eq
  alpha_eq p color hp hcolor := by
    have hf : d.format = format := hd.layout.format_eq.trans h.format_eq
    by_cases hon : c.Contains p
    · by_cases hS : S p
      · rw [color?, hd.inside p hon hS, hf, Option.map_some, Option.some.injEq] at hcolor
        exact hcolor ▸ hpicture p hp hS
      · refine h.alpha_eq p color (hrest p hp hS) ?_
        rw [color?, ← hd.outside p hS, h.format_eq, ← hf]
        exact hcolor
    · rw [color?, hd.layout.packed?_of_not_contains hon, packed?, byteIndex?, if_neg hon] at hcolor
      cases hcolor

theorem put (h : c.SolidOutside format holes) (q : Point) (hvalue : format.Solid value) :
    (c.put q value).SolidOutside format holes :=
  h.painted (painted_put h.valid (h.format_eq ▸ hvalue.lt_range) q) (fun _ _ _ => hvalue.alpha_eq) fun _ hp _ => hp

theorem putRow (h : c.SolidOutside format holes) (a b y : Int) (hvalue : format.Solid value) :
    (c.putRow a b y value).SolidOutside format holes :=
  h.painted (painted_putRow_clipped h.valid (h.format_eq ▸ hvalue.lt_range) a b y) (fun _ _ _ => hvalue.alpha_eq)
    fun _ hp _ => hp

/-- A color that is mixed into a solid pixel leaves it solid, whatever its own alpha. -/
theorem blend (h : c.SolidOutside format holes) (q : Point) (color : Rgba) :
    (c.blend q color).SolidOutside format holes where
  valid := (sameLayout_blend c q color).valid h.valid
  format_eq := (sameLayout_blend c q color).format_eq.trans h.format_eq
  alpha_eq p above hp habove := by
    rw [color?_blend h.valid] at habove
    split at habove
    · obtain ⟨below, hbelow, rfl⟩ := Option.map_eq_some_iff.mp habove
      exact c.format.unpack_pack_alpha_full (Rgba.alpha_paintedOver (h.alpha_eq p below hp hbelow))
    · exact h.alpha_eq p above hp habove

theorem putRect (h : c.SolidOutside format holes) (corner : Point) (width height : Nat) (hvalue : format.Solid value) :
    (c.putRect corner width height value).SolidOutside format holes := by
  unfold Canvas.putRect
  split
  · exact h
  · exact Span.fold_preserves _ (fun d y _ hd => hd.putRow _ _ y hvalue) h

theorem pasteOver (h : c.SolidOutside format holes) (b : Bitmap) (corner : Point) :
    (c.pasteOver b corner).SolidOutside format holes :=
  b.fold_preserves (fun _ _ _ color hd => hd.blend _ color) h

/-! ## Lines -/

theorem drawLine (h : c.SolidOutside format holes) (a b : Point) (hcolor : color.a = 255) :
    (c.drawLine a b color).SolidOutside format holes := by
  unfold Canvas.drawLine
  split
  · exact h
  · exact LineWalk.fold_preserves _ (fun d q hd => hd.put q (h.format_eq ▸ c.format.solid_pack hcolor)) a h

theorem plot (h : c.SolidOutside format holes) (l : SmoothLine) (color : Rgba) (along : Int) (height : Single) :
    (l.plot color c along height).SolidOutside format holes := by
  simp only [SmoothLine.plot]
  split
  · exact (h.blend _ _).blend _ _
  · exact h.blend _ _

theorem drawSmoothLine (h : c.SolidOutside format holes) (a b : Point) (color : Rgba) :
    (c.drawSmoothLine a b color).SolidOutside format holes := by
  unfold Canvas.drawSmoothLine
  split
  · exact h
  · split
    · exact h.blend a color
    · split
      · exact h
      · exact Span.fold_preserves (p := fun q : Canvas × Single => q.1.SolidOutside format holes) _
          (fun q _ _ hq => hq.plot _ color _ q.2) h

/-! ## Polygons -/

theorem fillPolygon (h : c.SolidOutside format holes) (points : List Point) (hcolor : color.a = 255) :
    (c.fillPolygon points color).SolidOutside format holes := by
  have hvalue : format.Solid (c.format.pack color) := h.format_eq ▸ c.format.solid_pack hcolor
  unfold Canvas.fillPolygon
  split
  · exact h
  · refine Span.fold_preserves _ (fun d y _ hd => List.foldlRecOn _ _ hd fun e he s _ => ?_) h
    split
    · exact he.putRow _ _ y hvalue
    · exact he

theorem fillSmoothPolygon (h : c.SolidOutside format holes) (points : List Point) (hcolor : color.a = 255) :
    (c.fillSmoothPolygon points color).SolidOutside format holes := by
  have hfill := h.fillPolygon points hcolor
  simp only [Canvas.fillSmoothPolygon]
  split
  · exact hfill
  · exact List.foldlRecOn _ _ hfill fun d hd _ _ => hd.drawSmoothLine _ _ color

/-! ## Discs -/

theorem rimFill (h : c.SolidOutside format holes) (s : RimStep) (center : Point) (hvalue : format.Solid value) :
    (s.fill c center value).SolidOutside format holes := by
  have hwide := h.putRow (center.x - s.reach) (center.x + s.reach) (center.y + s.height) hvalue
  simp only [RimStep.fill]
  split <;> split
  · exact hwide
  · exact hwide.putRow _ _ _ hvalue
  · exact hwide.putRow _ _ _ hvalue
  · exact ((hwide.putRow _ _ _ hvalue).putRow _ _ _ hvalue).putRow _ _ _ hvalue

theorem rimFillFrom (center : Point) (hvalue : format.Solid value) (steps : Nat) (s : RimStep)
    (h : c.SolidOutside format holes) : (RimStep.fillFrom center value steps s c).SolidOutside format holes := by
  induction steps generalizing s c with
  | zero => exact h
  | succ steps ih =>
      simp only [RimStep.fillFrom]
      split
      · exact h
      · exact ih _ (h.rimFill s center hvalue)

theorem fillDisc (h : c.SolidOutside format holes) (center : Point) (radius : Int) (hcolor : color.a = 255) :
    (c.fillDisc center radius color).SolidOutside format holes := by
  have hvalue : format.Solid (c.format.pack color) := h.format_eq ▸ c.format.solid_pack hcolor
  unfold Canvas.fillDisc
  split
  · exact h
  · dsimp only
    split
    · exact h.put center hvalue
    · exact rimFillFrom center hvalue _ _ h

theorem fillSmoothDisc (h : c.SolidOutside format holes) (center : Point) (radius : Int) (hcolor : color.a = 255) :
    (c.fillSmoothDisc center radius color).SolidOutside format holes := by
  have hvalue : format.Solid (c.format.pack color) := h.format_eq ▸ c.format.solid_pack hcolor
  unfold Canvas.fillSmoothDisc
  split
  · exact h
  · refine Span.fold_preserves _ (fun d y _ hd => Span.fold_preserves _ (fun e x _ he => ?_) hd) h
    dsimp only
    split
    · exact he.put _ hvalue
    · split
      · exact he.blend _ _
      · exact he

/-! ## Pens -/

variable {pen : Pen}

theorem disc (h : c.SolidOutside format holes) (hpen : pen.foreground.a = 255) (center : Point) (radius : Int) :
    (pen.disc c center radius).SolidOutside format holes := by
  unfold Pen.disc
  split
  · exact h.fillSmoothDisc center radius hpen
  · exact h.fillDisc center radius hpen

theorem polygon (h : c.SolidOutside format holes) (hpen : pen.foreground.a = 255) (points : List Point) :
    (pen.polygon c points).SolidOutside format holes := by
  unfold Pen.polygon
  split
  · exact h.fillSmoothPolygon points hpen
  · exact h.fillPolygon points hpen

theorem line (h : c.SolidOutside format holes) (hpen : pen.foreground.a = 255) (a b : Point) :
    (pen.line c a b).SolidOutside format holes := by
  unfold Pen.line
  split
  · exact h.drawSmoothLine a b pen.foreground
  · exact h.drawLine a b hpen

theorem rectangle (h : c.SolidOutside format holes) (hpen : pen.foreground.a = 255) (corner : Point)
    (width height : Nat) : (pen.rectangle c corner width height).SolidOutside format holes :=
  h.putRect corner width height (h.format_eq ▸ c.format.solid_pack hpen)

theorem polyline (h : c.SolidOutside format holes) (hpen : pen.foreground.a = 255) (radius : Int → Int)
    (points : List Point) : (pen.polyline radius c points).SolidOutside format holes := by
  refine List.foldlRecOn _ _ h fun d hd piece _ => ?_
  cases piece with
  | line a b => exact hd.line hpen a b
  | quad q => exact hd.polygon hpen q.corners
  | cap center r => exact hd.disc hpen center (radius r)

end SolidOutside

end Canvas

end Framecast
