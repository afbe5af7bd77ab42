import Framecast.Proofs.Canvas.Copies

/-!
# What can be done to a canvas

`CanvasOperation` lists the operations on a canvas with their arguments, so that statements can speak of every sequence
of them. An operation keeps a canvas valid and leaves its format and its edge mode alone, also the one that gives it
another size.
-/

namespace Framecast

/-- An operation on a canvas with its arguments. -/
inductive CanvasOperation where
  | put (p : Point) (value : Nat)
  | blend (p : Point) (color : Rgba)
  | putRow (a b y : Int) (value : Nat)
  | putRect (corner : Point) (width height value : Nat)
  | paste (b : Bitmap) (corner : Point)
  | pasteOver (b : Bitmap) (corner : Point)
  | copyFrom (source : Canvas) (valid : source.Valid) (corner : Point)
  | resize (allocator : Allocator) (width height : Nat)
  | drawLine (a b : Point) (color : Rgba)
  | drawSmoothLine (a b : Point) (color : Rgba)
  | fillPolygon (points : List Point) (color : Rgba)
  | fillSmoothPolygon (points : List Point) (color : Rgba)
  | fillDisc (center : Point) (radius : Int) (color : Rgba)
  | fillSmoothDisc (center : Point) (radius : Int) (color : Rgba)

namespace Canvas

/-- The canvas after an operation. A refused change of size leaves it as it is. -/
def after (c : Canvas) : CanvasOperation → Canvas
  | .put p value => c.put p value
  | .blend p color => c.blend p color
  | .putRow a b y value => c.putRow a b y value
  | .putRect corner width height value => c.putRect corner width height value
  | .paste b corner => c.paste b corner
  | .pasteOver b corner => c.pasteOver b corner
  | .copyFrom source _ corner => c.copyFrom source corner
  | .resize allocator width height =>
    match c.resize allocator width height with
    | .error _ => c
    | .ok d => d
  | .drawLine a b color => c.drawLine a b color
  | .drawSmoothLine a b color => c.drawSmoothLine a b color
  | .fillPolygon points color => c.fillPolygon points color
  | .fillSmoothPolygon points color => c.fillSmoothPolygon points color
  | .fillDisc center radius color => c.fillDisc center radius color
  | .fillSmoothDisc center radius color => c.fillSmoothDisc center radius color

/-- A valid canvas of a given format and edge mode. -/
structure OfKind (c : Canvas) (format : PixelFormat) (antialias : Bool) : Prop where
  valid : c.Valid
  format_eq : c.format = format
  antialias_eq : c.antialias = antialias

theorem SameLayout.ofKind {c d : Canvas} {format : PixelFormat} {antialias : Bool} (h : c.SameLayout d)
    (hc : c.OfKind format antialias) : d.OfKind format antialias :=
  ⟨h.valid hc.valid, h.format_eq.trans hc.format_eq, h.antialias_eq.trans hc.antialias_eq⟩

/-- A canvas on which every byte is zero, whatever its size. -/
def blank (width height : Nat) (format : PixelFormat) (antialias : Bool) : Canvas where
  width := width
  height := height
  format := format
  antialias := antialias
  bytes := Buffer.zeros (width * height * format.bytesPerPixel)

theorem valid_blank {width height : Nat} (hwidth : 0 < width) (hheight : 0 < height) (format : PixelFormat)
    (antialias : Bool) : (blank width height format antialias).Valid :=
  ⟨hwidth, hheight, Buffer.size_zeros _⟩

section

variable {allocator : Allocator} {width height : Nat} {format : PixelFormat} {antialias : Bool} {c : Canvas}

theorem eq_blank_of_create (h : create allocator width height format antialias = .ok c) :
    c = blank width height format antialias := by
  cases hb : allocate allocator width height format with
  | error e => simp [create, hb, bind, Except.bind] at h
  | ok bytes =>
      simp only [create, hb, bind, Except.bind, pure, Except.pure, Except.ok.injEq] at h
      subst h
      obtain ⟨-, rfl⟩ := allocate_eq_ok_iff.mp hb
      rfl

theorem ofKind_of_create (h : create allocator width height format antialias = .ok c) : c.OfKind format antialias := by
  have hvalid := valid_of_create h
  obtain rfl := eq_blank_of_create h
  exact ⟨hvalid, rfl, rfl⟩

theorem OfKind.resize {d : Canvas} (hc : c.OfKind format antialias) (h : c.resize allocator width height = .ok d) :
    d.OfKind format antialias := by
  have hvalid := Valid.resize h
  cases hb : allocate allocator width height c.format with
  | error e => simp [Canvas.resize, hb, bind, Except.bind] at h
  | ok bytes =>
      simp only [Canvas.resize, hb, bind, Except.bind, pure, Except.pure, Except.ok.injEq] at h
      subst h
      exact ⟨hvalid, hc.format_eq, hc.antialias_eq⟩

theorem OfKind.after (hc : c.OfKind format antialias) (operation : CanvasOperation) :
    (c.after operation).OfKind format antialias := by
  cases operation with
  | put p value => exact (sameLayout_put c p value).ofKind hc
  | blend p color => exact (sameLayout_blend c p color).ofKind hc
  | putRow a b y value => exact (sameLayout_putRow c a b y value).ofKind hc
  | putRect corner width height value => exact (sameLayout_putRect c corner width height value).ofKind hc
  | paste b corner => exact (sameLayout_paste c b corner).ofKind hc
  | pasteOver b corner => exact (sameLayout_pasteOver c b corner).ofKind hc
  | copyFrom source valid corner => exact (sameLayout_copyFrom hc.valid valid corner).ofKind hc
  | resize allocator width height =>
      cases h : c.resize allocator width height with
      | error e =>
          simp only [Canvas.after, h]
          exact hc
      | ok d =>
          simp only [Canvas.after, h]
          exact hc.resize h
  | drawLine a b color => exact (sameLayout_drawLine c a b color).ofKind hc
  | drawSmoothLine a b color => exact (sameLayout_drawSmoothLine c a b color).ofKind hc
  | fillPolygon points color => exact (sameLayout_fillPolygon c points color).ofKind hc
  | fillSmoothPolygon points color => exact (sameLayout_fillSmoothPolygon c points color).ofKind hc
  | fillDisc center radius color => exact (sameLayout_fillDisc c center radius color).ofKind hc
  | fillSmoothDisc center radius color => exact (sameLayout_fillSmoothDisc c center radius color).ofKind hc

end

end Canvas

end Framecast
