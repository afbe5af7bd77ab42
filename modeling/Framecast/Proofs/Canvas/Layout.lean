import Framecast.Canvas.Transfer
import Framecast.Shape.Pen
import Framecast.Text.Painter

/-!
# What drawing keeps

Drawing changes the bytes of a canvas and nothing else: its sides, its format, its edge mode and the number of its bytes
stay. `Canvas.SameLayout` says so of two canvases, and every shape, copy and text is shown to keep it; with it goes
`Canvas.Valid`. Every drawing operation is a fold of clipped writes, so each proof follows the fold.
-/

namespace Framecast

/-- Two canvases differ in the values of their bytes at most. -/
structure Canvas.SameLayout (c d : Canvas) : Prop where
  width_eq : d.width = c.width
  height_eq : d.height = c.height
  format_eq : d.format = c.format
  antialias_eq : d.antialias = c.antialias
  size_eq : d.bytes.size = c.bytes.size

namespace Canvas

variable {c d e : Canvas}

theorem SameLayout.refl (c : Canvas) : c.SameLayout c := ⟨rfl, rfl, rfl, rfl, rfl⟩

theorem SameLayout.trans (h : c.SameLayout d) (h' : d.SameLayout e) : c.SameLayout e where
  width_eq := h'.width_eq.trans h.width_eq
  height_eq := h'.height_eq.trans h.height_eq
  format_eq := h'.format_eq.trans h.format_eq
  antialias_eq := h'.antialias_eq.trans h.antialias_eq
  size_eq := h'.size_eq.trans h.size_eq

theorem SameLayout.valid (h : c.SameLayout d) (hc : c.Valid) : d.Valid where
  width_pos := h.width_eq ▸ hc.width_pos
  height_pos := h.height_eq ▸ hc.height_pos
  size_eq := by rw [h.size_eq, h.width_eq, h.height_eq, h.format_eq, hc.size_eq]

/-- Steps that each keep the layout keep it together. -/
theorem SameLayout.foldl {f : Canvas → α → Canvas} (h : ∀ d a, SameLayout d (f d a)) (l : List α) (c : Canvas) :
    c.SameLayout (l.foldl f c) :=
  List.foldlRecOn l f (.refl c) fun d hd a _ => hd.trans (h d a)

theorem SameLayout.spanFold {f : Canvas → Int → Canvas} (h : ∀ d n, SameLayout d (f d n)) (s : Span)
    (c : Canvas) : c.SameLayout (s.fold f c) :=
  s.fold_preserves (fun d n _ hd => hd.trans (h d n)) (.refl c)

/-! ## Single pixels, rows and rectangles -/

theorem sameLayout_storeAt (c : Canvas) (index value : Nat) : c.SameLayout (c.storeAt index value) :=
  ⟨rfl, rfl, rfl, rfl, LittleEndian.size_store _ _ _ _⟩

theorem sameLayout_put (c : Canvas) (p : Point) (value : Nat) : c.SameLayout (c.put p value) := by
  unfold put
  split
  · exact .refl c
  · exact sameLayout_storeAt c _ _

theorem sameLayout_blend (c : Canvas) (p : Point) (color : Rgba) : c.SameLayout (c.blend p color) := by
  unfold blend
  split
  · exact .refl c
  · split
    · exact .refl c
    · exact sameLayout_storeAt c _ _

theorem sameLayout_putRow (c : Canvas) (a b y : Int) (value : Nat) : c.SameLayout (c.putRow a b y value) := by
  unfold putRow
  split
  · exact .refl c
  · exact .spanFold (fun d _ => sameLayout_storeAt d _ _) _ c

theorem sameLayout_putRect (c : Canvas) (corner : Point) (width height value : Nat) :
    c.SameLayout (c.putRect corner width height value) := by
  unfold putRect
  split
  · exact .refl c
  · exact .spanFold (fun d _ => sameLayout_putRow d _ _ _ _) _ c

/-! ## Bitmaps -/

theorem sameLayout_paste (c : Canvas) (b : Bitmap) (corner : Point) : c.SameLayout (c.paste b corner) :=
  b.fold_preserves (fun d _ _ _ hd => hd.trans (sameLayout_put d _ _)) (.refl c)

theorem sameLayout_pasteOver (c : Canvas) (b : Bitmap) (corner : Point) : c.SameLayout (c.pasteOver b corner) :=
  b.fold_preserves (fun d _ _ _ hd => hd.trans (sameLayout_blend d _ _)) (.refl c)

/-! ## Lines -/

theorem sameLayout_drawLine (c : Canvas) (a b : Point) (color : Rgba) : c.SameLayout (c.drawLine a b color) := by
  unfold drawLine
  split
  · exact .refl c
  · exact LineWalk.fold_preserves _ (fun d _ hd => hd.trans (sameLayout_put d _ _)) a (.refl c)

theorem sameLayout_plot (l : SmoothLine) (color : Rgba) (c : Canvas) (along : Int) (height : Single) :
    c.SameLayout (l.plot color c along height) := by
  simp only [SmoothLine.plot]
  split
  · exact (sameLayout_blend c _ _).trans (sameLayout_blend _ _ _)
  · exact sameLayout_blend c _ _

theorem sameLayout_drawSmoothLine (c : Canvas) (a b : Point) (color : Rgba) :
    c.SameLayout (c.drawSmoothLine a b color) := by
  unfold drawSmoothLine
  split
  · exact .refl c
  · split
    · exact sameLayout_blend c _ _
    · split
      · exact .refl c
      · -- The walk carries the height of the line along; only the canvas matters here.
        exact Span.fold_preserves (p := fun q : Canvas × Single => c.SameLayout q.1) _
          (fun q _ _ hq => hq.trans (sameLayout_plot _ color q.1 _ q.2)) (.refl c)

/-! ## Polygons -/

theorem sameLayout_fillPolygon (c : Canvas) (points : List Point) (color : Rgba) :
    c.SameLayout (c.fillPolygon points color) := by
  unfold fillPolygon
  split
  · exact .refl c
  · refine .spanFold (fun d y => .foldl (fun d s => ?_) _ d) _ c
    split
    · exact sameLayout_putRow d _ _ _ _
    · exact .refl d

theorem sameLayout_fillSmoothPolygon (c : Canvas) (points : List Point) (color : Rgba) :
    c.SameLayout (c.fillSmoothPolygon points color) := by
  have hfill := sameLayout_fillPolygon c points color
  simp only [fillSmoothPolygon]
  split
  · exact hfill
  · exact hfill.trans (.foldl (fun d _ => sameLayout_drawSmoothLine d _ _ _) _ _)

/-! ## Discs -/

theorem sameLayout_rimFill (s : RimStep) (c : Canvas) (center : Point) (value : Nat) :
    c.SameLayout (s.fill c center value) := by
  have row (d : Canvas) (a b y : Int) : d.SameLayout (d.putRow a b y value) := sameLayout_putRow d a b y value
  simp only [RimStep.fill]
  split <;> split
  · exact row _ _ _ _
  · exact (row _ _ _ _).trans (row _ _ _ _)
  · exact (row _ _ _ _).trans (row _ _ _ _)
  · exact (((row _ _ _ _).trans (row _ _ _ _)).trans (row _ _ _ _)).trans (row _ _ _ _)

theorem sameLayout_rimFillFrom (center : Point) (value steps : Nat) (s : RimStep) (c : Canvas) :
    c.SameLayout (RimStep.fillFrom center value steps s c) := by
  induction steps generalizing s c with
  | zero => exact .refl c
  | succ steps ih =>
      simp only [RimStep.fillFrom]
      split
      · exact .refl c
      · exact (sameLayout_rimFill s c center value).trans (ih _ _)

theorem sameLayout_fillDisc (c : Canvas) (center : Point) (radius : Int) (color : Rgba) :
    c.SameLayout (c.fillDisc center radius color) := by
  unfold fillDisc
  split
  · exact .refl c
  · dsimp only
    split
    · exact sameLayout_put c _ _
    · exact sameLayout_rimFillFrom _ _ _ _ c

theorem sameLayout_fillSmoothDisc (c : Canvas) (center : Point) (radius : Int) (color : Rgba) :
    c.SameLayout (c.fillSmoothDisc center radius color) := by
  unfold fillSmoothDisc
  split
  · exact .refl c
  · refine .spanFold (fun d y => .spanFold (fun d x => ?_) _ d) _ c
    dsimp only
    split
    · exact sameLayout_put d _ _
    · split
      · exact sameLayout_blend d _ _
      · exact .refl d

end Canvas

/-! ## Pens -/

namespace Pen

theorem sameLayout_disc (p : Pen) (c : Canvas) (center : Point) (radius : Int) :
    c.SameLayout (p.disc c center radius) := by
  unfold disc
  split
  · exact c.sameLayout_fillSmoothDisc _ _ _
  · exact c.sameLayout_fillDisc _ _ _

theorem sameLayout_polygon (p : Pen) (c : Canvas) (points : List Point) : c.SameLayout (p.polygon c points) := by
  unfold polygon
  split
  · exact c.sameLayout_fillSmoothPolygon _ _
  · exact c.sameLayout_fillPolygon _ _

theorem sameLayout_line (p : Pen) (c : Canvas) (a b : Point) : c.SameLayout (p.line c a b) := by
  unfold line
  split
  · exact c.sameLayout_drawSmoothLine _ _ _
  · exact c.sameLayout_drawLine _ _ _

theorem sameLayout_rectangle (p : Pen) (c : Canvas) (corner : Point) (width height : Nat) :
    c.SameLayout (p.rectangle c corner width height) :=
  c.sameLayout_putRect _ _ _ _

theorem sameLayout_piece (p : Pen) (radius : Int → Int) (c : Canvas) (piece : StrokePiece) :
    c.SameLayout (p.piece radius c piece) := by
  cases piece with
  | line a b => exact p.sameLayout_line c a b
  | quad q => exact p.sameLayout_polygon c _
  | cap center r => exact p.sameLayout_disc c _ _

theorem sameLayout_polyline (p : Pen) (radius : Int → Int) (c : Canvas) (points : List Point) :
    c.SameLayout (p.polyline radius c points) :=
  .foldl (fun d piece => p.sameLayout_piece radius d piece) _ c

end Pen

/-! ## Text -/

namespace Typesetter

variable {Font Code : Type} (t : Typesetter Font Code)

theorem sameLayout_paintHalos (halo : Rgba) (placed : List (Glyph Code × Point)) (c : Canvas) (s : Scratch) :
    c.SameLayout (t.paintHalos halo placed c s).1 :=
  List.foldlRecOn (motive := fun q : Canvas × Scratch => c.SameLayout q.1) placed _ (.refl c) fun q hq _ _ =>
    hq.trans (q.1.sameLayout_paste _ _)

theorem sameLayout_paintGlyphs {draw : Canvas → Bitmap → Point → Canvas} (h : ∀ d b p, Canvas.SameLayout d (draw d b p))
    (colors : GlyphColors) (placed : List (Glyph Code × Point)) (c : Canvas) (s : Scratch) :
    c.SameLayout (t.paintGlyphs draw colors placed c s).1 :=
  List.foldlRecOn (motive := fun q : Canvas × Scratch => c.SameLayout q.1) placed _ (.refl c) fun q hq _ _ =>
    hq.trans (h q.1 _ _)

theorem sameLayout_paintRun (run : List (Glyph Code)) (foreground : Rgba) (background : Option Rgba) (origin : Point)
    (c : Canvas) (s : Scratch) : c.SameLayout (t.paintRun run foreground background origin c s).1 := by
  cases background with
  | none => exact t.sameLayout_paintGlyphs Canvas.sameLayout_pasteOver _ _ c s
  | some b =>
      exact (t.sameLayout_paintHalos _ _ c s).trans (t.sameLayout_paintGlyphs Canvas.sameLayout_paste _ _ _ _)

end Typesetter

end Framecast
