import Framecast.Proofs.Canvas.Export
import Framecast.Proofs.Canvas.Layers
import Framecast.Text.BoxFont
import Framecast.Text.Painter

/-!
# What a run of glyphs leaves on a canvas

A glyph lies where the advances of all glyphs before it have moved the pen, whether they left a mark or not. Its bitmap
does not depend on what the scratch buffer held, so the two passes of a run lay the same pictures over the canvas for
every scratch buffer. On a background the halos come first and the glyphs after them, so that a halo never covers a
glyph; without one the glyphs are painted over the canvas and over each other. All of this holds as long as no
coordinate and no size of a bitmap wraps around (`Glyph.Fits`).
-/

namespace Framecast

/-! ## Where the boxes lie -/

namespace Glyph

variable {Code : Type} {origin : Point}

/-- The pen with the advances of the glyphs added that it has passed. -/
def penAfter (pen : Point) (passed : List (Glyph Code)) : Point :=
  ⟨passed.foldl (fun x g => x + g.advanceX) pen.x, passed.foldl (fun y g => y + g.advanceY) pen.y⟩

/-- The top-left corner of a glyph's box when the pen started at a pixel and has passed other glyphs. -/
def cornerAfter (origin : Point) (passed : List (Glyph Code)) (g : Glyph Code) : Point :=
  ⟨((penAfter ⟨64 * origin.x, 64 * origin.y⟩ passed).x + g.left) / 64,
    ((penAfter ⟨64 * origin.x, 64 * origin.y⟩ passed).y + g.top) / 64⟩

/-- The glyphs of a run that leave a mark, in order, with the corners of their boxes. -/
def boxes (origin : Point) (run : List (Glyph Code)) : List (Glyph Code × Point) :=
  (run.zipIdx.filter fun q => !q.1.isBlank).map fun q => (q.1, q.1.cornerAfter origin (run.take q.2))

/-- The box of a glyph, made wider and higher by a margin, lies on a point when its top-left corner lies on another. -/
def Boxed (margin : Nat) (q : Glyph Code × Point) (p : Point) : Prop :=
  (0 ≤ (p.seenFrom q.2).x ∧ (p.seenFrom q.2).x < (q.1.width + margin : Nat)) ∧
    0 ≤ (p.seenFrom q.2).y ∧ (p.seenFrom q.2).y < (q.1.height + margin : Nat)

instance (margin : Nat) (q : Glyph Code × Point) (p : Point) : Decidable (Boxed margin q p) :=
  inferInstanceAs (Decidable (_ ∧ _))

/-- The boxes of a run that lie on a point, in order. -/
def boxesOn (margin : Nat) (origin : Point) (run : List (Glyph Code)) (p : Point) : List (Glyph Code × Point) :=
  (boxes origin run).filter fun q => Boxed margin q p

/-- For every glyph that leaves a mark, the pen at it is a coordinate, and no size of its bitmaps wraps around. -/
structure Fits (origin : Point) (run : List (Glyph Code)) : Prop where
  x_inRange : ∀ q ∈ run.zipIdx, q.1.isBlank = false →
    Coordinate.InRange ((penAfter ⟨64 * origin.x, 64 * origin.y⟩ (run.take q.2)).x + q.1.left)
  y_inRange : ∀ q ∈ run.zipIdx, q.1.isBlank = false →
    Coordinate.InRange ((penAfter ⟨64 * origin.x, 64 * origin.y⟩ (run.take q.2)).y + q.1.top)
  sized : ∀ g ∈ run, g.isBlank = false → g.Sized

/-- A pen that wraps around comes to the same place, wrapped around, as one that does not. -/
theorem foldl_advance (pen : Point) (passed : List (Glyph Code)) :
    passed.foldl (fun pen g => g.advance pen) ⟨Coordinate.wrap pen.x, Coordinate.wrap pen.y⟩ =
      ⟨Coordinate.wrap (penAfter pen passed).x, Coordinate.wrap (penAfter pen passed).y⟩ := by
  induction passed generalizing pen with
  | nil => rfl
  | cons g passed ih =>
      rw [List.foldl_cons, advance, Coordinate.wrap_wrap_add, Coordinate.wrap_wrap_add]
      exact ih ⟨pen.x + g.advanceX, pen.y + g.advanceY⟩

/-- The pen is where the advances of the glyphs that it has passed have moved it. -/
theorem place_eq (run : List (Glyph Code)) (pen : Point) :
    place run pen = (run.zipIdx.filter fun q => !q.1.isBlank).map fun q =>
      (q.1, q.1.corner ((run.take q.2).foldl (fun pen g => g.advance pen) pen)) := by
  induction run generalizing pen with
  | nil => rfl
  | cons g rest ih =>
      have htail : ((rest.zipIdx 1).filter fun q => !q.1.isBlank).map
            (fun q => (q.1, q.1.corner (((g :: rest).take q.2).foldl (fun pen g => g.advance pen) pen))) =
          place rest (g.advance pen) := by
        rw [List.zipIdx_succ, List.filter_map, List.map_map, ih]
        rfl
      rw [List.zipIdx_cons, List.filter_cons, place]
      cases hblank : g.isBlank with
      | true =>
          simp only [Bool.not_true, Bool.false_eq_true, ↓reduceIte]
          exact htail.symm
      | false =>
          simp only [Bool.not_false, Bool.false_eq_true, ↓reduceIte, List.map_cons]
          exact congrArg _ htail.symm

theorem place_penAt {run : List (Glyph Code)} (h : Fits origin run) : place run (penAt origin) = boxes origin run := by
  rw [place_eq, boxes]
  refine List.map_congr_left fun q hq => ?_
  obtain ⟨hmem, hmark⟩ := List.mem_filter.mp hq
  have hmark : q.1.isBlank = false := by simpa using hmark
  rw [penAt, Int.mul_comm origin.x, Int.mul_comm origin.y, foldl_advance ⟨64 * origin.x, 64 * origin.y⟩, corner,
    Coordinate.wrap_wrap_add, Coordinate.wrap_wrap_add, Coordinate.wrap_of_inRange (h.x_inRange q hmem hmark),
    Coordinate.wrap_of_inRange (h.y_inRange q hmem hmark)]
  rfl

theorem Fits.sized_of_mem {run : List (Glyph Code)} (h : Fits origin run) {q : Glyph Code × Point} {pen : Point}
    (hq : q ∈ place run pen) : q.1.Sized := by
  obtain ⟨hmem, hmark⟩ := mem_of_mem_place hq
  exact h.sized q.1 hmem hmark

end Glyph

/-! ## Which pictures are drawn -/

namespace Bitmap

variable {b : Bitmap} {corner p : Point}

/-- The rows follow each other without a gap, and all of them are there. -/
structure Full (b : Bitmap) : Prop where
  stride_eq : b.stride = b.width * 4
  size_eq : b.bytes.size = b.stride * b.height

/-- The color that the bitmap has for a point of its box when its top-left corner lies on another. -/
def colorOn (b : Bitmap) (corner p : Point) : Rgba :=
  Buffer.colorAt b.bytes ((p.seenFrom corner).y.toNat * b.stride + (p.seenFrom corner).x.toNat * 4)

theorem Full.colorOn?_eq (h : b.Full) :
    b.colorOn? corner p = if b.Covers corner p then some (b.colorOn corner p) else none := by
  rw [colorOn?]
  split
  · rename_i hcovers
    obtain ⟨⟨hx, hx'⟩, hy, hy'⟩ := hcovers
    have hrow : (p.seenFrom corner).y.toNat * b.stride + b.stride ≤ b.height * b.stride :=
      Canvas.mul_add_le_mul (by omega)
    have hsize := h.size_eq
    have hstride := h.stride_eq
    rw [Nat.mul_comm] at hsize
    exact if_pos (by omega)
  · rfl

end Bitmap

namespace Typesetter

variable {Font Code : Type} (t : Typesetter Font Code)

/-- A glyph as a bitmap that is rendered in a fresh buffer. -/
def glyphPicture (colors : GlyphColors) (g : Glyph Code) : Bitmap :=
  ⟨g.width, g.height, g.width * 4, t.renderGlyph g (g.width * 4) colors (Buffer.zeros (g.width * 4 * g.height))⟩

/-- The halo of a glyph as a bitmap that is rendered in a fresh buffer. -/
def haloPicture (halo : Rgba) (g : Glyph Code) : Bitmap :=
  ⟨g.width + 2, g.height + 2, (g.width + 2) * 4, t.renderHalo g ((g.width + 2) * 4) halo .transparent
    (Buffer.zeros ((g.width + 2) * 4 * (g.height + 2)))⟩

theorem glyphBitmap_fst {g : Glyph Code} (hg : g.Sized) (colors : GlyphColors) (s : Scratch) :
    (t.glyphBitmap g colors s).1 = t.glyphPicture colors g := by
  simp only [glyphBitmap, glyphPicture, Scratch.lend, hg.wrapBytes_glyph, s.extract_clear]

theorem haloBitmap_fst {g : Glyph Code} (hg : g.Sized) (halo : Rgba) (s : Scratch) :
    (t.haloBitmap g halo s).1 = t.haloPicture halo g := by
  simp only [haloBitmap, haloPicture, Scratch.lend, hg.haloWidth_eq, hg.haloHeight_eq,
    Size.wrapBytes_of_lt hg.bytes_lt, s.extract_clear]

theorem full_glyphPicture (colors : GlyphColors) (g : Glyph Code) : (t.glyphPicture colors g).Full :=
  ⟨rfl, by simp only [glyphPicture, t.size_renderGlyph, Buffer.size_zeros]⟩

theorem full_haloPicture (halo : Rgba) (g : Glyph Code) : (t.haloPicture halo g).Full :=
  ⟨rfl, by simp only [haloPicture, t.size_renderHalo, Buffer.size_zeros]⟩

/-! ## The two passes -/

open Canvas (Layered)

variable {c : Canvas} {mix : Nat → Rgba → Nat} {draw : Canvas → Bitmap → Point → Canvas}

/-- Pictures that are drawn one after another lay their colors over a point, each whose box lies on it. -/
theorem layered_pass (render : Glyph Code → Scratch → Bitmap × Scratch) (picture : Glyph Code → Bitmap) (margin : Nat)
    {placed : List (Glyph Code × Point)} (hrender : ∀ q ∈ placed, ∀ s, (render q.1 s).1 = picture q.1)
    (hfull : ∀ g, (picture g).Full) (hcovers : ∀ q p, (picture q.1).Covers q.2 p ↔ Glyph.Boxed margin q p)
    (hdraw : Canvas.AddsLayer mix c draw) (s : Scratch) :
    Layered mix c (placed.foldl (fun r q => (draw r.1 (render q.1 r.2).1 q.2, (render q.1 r.2).2)) (c, s)).1 fun p =>
      (placed.filter fun q => Glyph.Boxed margin q p).map fun q => (picture q.1).colorOn q.2 p := by
  induction placed generalizing c s with
  | nil => exact .refl mix c
  | cons q rest ih =>
      have hfirst := hdraw c (picture q.1) q.2 (.refl c) (Nat.le_of_eq (hfull q.1).stride_eq.symm)
      obtain ⟨hq, htail⟩ := List.forall_mem_cons.mp hrender
      have hrest := ih htail (hdraw.of_sameLayout hfirst.layout) (render q.1 s).2
      rw [List.foldl_cons, hq]
      refine (hfirst.trans hrest).congr fun p => ?_
      rw [(hfull q.1).colorOn?_eq, List.filter_cons]
      by_cases hbox : Glyph.Boxed margin q p
      · rw [if_pos ((hcovers q p).mpr hbox), if_pos (decide_eq_true hbox)]
        rfl
      · rw [if_neg (mt (hcovers q p).mp hbox), if_neg (by simpa using hbox)]
        rfl

theorem layered_paintHalos (hpaste : Canvas.AddsLayer mix c Canvas.paste) (halo : Rgba)
    {placed : List (Glyph Code × Point)} (hplaced : ∀ q ∈ placed, q.1.Sized) (s : Scratch) :
    Layered mix c (t.paintHalos halo placed c s).1 fun p =>
      (placed.filter fun q => Glyph.Boxed 2 q p).map fun q => (t.haloPicture halo q.1).colorOn q.2 p :=
  layered_pass (fun g s => t.haloBitmap g halo s) (t.haloPicture halo) 2
    (fun q hq s => t.haloBitmap_fst (hplaced q hq) halo s) (t.full_haloPicture halo) (fun _ _ => Iff.rfl) hpaste s

theorem layered_paintGlyphs (hdraw : Canvas.AddsLayer mix c draw) (colors : GlyphColors)
    {placed : List (Glyph Code × Point)} (hplaced : ∀ q ∈ placed, q.1.Sized) (s : Scratch) :
    Layered mix c (t.paintGlyphs draw colors placed c s).1 fun p =>
      (placed.filter fun q => Glyph.Boxed 0 q p).map fun q => (t.glyphPicture colors q.1).colorOn q.2 p :=
  layered_pass (fun g s => t.glyphBitmap g colors s) (t.glyphPicture colors) 0
    (fun q hq s => t.glyphBitmap_fst (hplaced q hq) colors s) (t.full_glyphPicture colors) (fun _ _ => Iff.rfl) hdraw s

section Run

variable {origin : Point} {run : List (Glyph Code)} (hrun : Glyph.Fits origin run)
include hrun

/-- On a background the glyphs lie above the halos. -/
theorem layered_paintRun_some (hc : c.Valid) (foreground background : Rgba) (s : Scratch) :
    let ink := (textColors foreground (some background)).1
    let halo := (textColors foreground (some background)).2
    Layered c.format.cover c (t.paintRun run foreground (some background) origin c s).1 fun p =>
      ((Glyph.boxesOn 2 origin run p).map fun q => (t.haloPicture halo q.1).colorOn q.2 p) ++
        (Glyph.boxesOn 0 origin run p).map fun q => (t.glyphPicture ⟨ink, halo, .transparent⟩ q.1).colorOn q.2 p := by
  intro ink halo
  simp only [Glyph.boxesOn, ← Glyph.place_penAt hrun]
  have hpaste := Canvas.AddsLayer.paste hc
  have hsized : ∀ q ∈ Glyph.place run (Glyph.penAt origin), q.1.Sized := fun _ => hrun.sized_of_mem
  have hhalos := t.layered_paintHalos hpaste halo hsized s
  exact hhalos.trans (t.layered_paintGlyphs (hpaste.of_sameLayout hhalos.layout) _ hsized _)

theorem layered_paintRun_none (hc : c.Valid) (foreground : Rgba) (s : Scratch) :
    Layered c.format.mix c (t.paintRun run foreground none origin c s).1 fun p =>
      (Glyph.boxesOn 0 origin run p).map fun q =>
        (t.glyphPicture ⟨foreground, .transparent, .transparent⟩ q.1).colorOn q.2 p := by
  simp only [Glyph.boxesOn, ← Glyph.place_penAt hrun]
  exact t.layered_paintGlyphs (.pasteOver hc) _ (fun _ => hrun.sized_of_mem) s

/-- On a background a point of the canvas shows the last glyph whose box lies on it, else the last halo that does, and
else what it showed before: no halo covers a glyph. Without one the glyphs whose boxes lie on a point are painted over
it one after another. -/
theorem paintRun_pixels (hc : c.Valid) (foreground : Rgba) (s : Scratch) :
    (∀ background : Rgba,
      let ink := (textColors foreground (some background)).1
      let halo := (textColors foreground (some background)).2
      let d := (t.paintRun run foreground (some background) origin c s).1
      c.SameLayout d ∧ ∀ p, c.Contains p → d.packed? p =
        ((Glyph.boxesOn 0 origin run p).getLast?.map fun q =>
            c.format.pack ((t.glyphPicture ⟨ink, halo, .transparent⟩ q.1).colorOn q.2 p)).or
          (((Glyph.boxesOn 2 origin run p).getLast?.map fun q =>
            c.format.pack ((t.haloPicture halo q.1).colorOn q.2 p)).or (c.packed? p))) ∧
    let d := (t.paintRun run foreground none origin c s).1
    c.SameLayout d ∧ ∀ p, d.packed? p = (c.packed? p).map fun below =>
      ((Glyph.boxesOn 0 origin run p).map fun q =>
        (t.glyphPicture ⟨foreground, .transparent, .transparent⟩ q.1).colorOn q.2 p).foldl c.format.mix below := by
  refine ⟨fun background => ?_, ?_⟩
  · intro ink halo d
    have hlayers := t.layered_paintRun_some hrun hc foreground background s
    refine ⟨hlayers.layout, fun p hp => ?_⟩
    rw [hlayers.packed?_eq, Canvas.packed?_eq hp, Option.map_some, List.foldl_append, PixelFormat.foldl_cover,
      PixelFormat.foldl_cover, List.getLast?_map, List.getLast?_map, Option.map_map, Option.map_map, Option.or_some,
      Option.or_some]
    rfl
  · intro d
    have hlayers := t.layered_paintRun_none hrun hc foreground s
    exact ⟨hlayers.layout, hlayers.packed?_eq⟩

end Run

/-- The halo of the first glyph lies below the second glyph, and in one column the glyphs lie above each other. -/
theorem paintRun_pixels_of_neighbours :
    let c : Canvas := ⟨7, 5, .rgba2222, false, Buffer.zeros 35⟩
    let run : List (Glyph Char) :=
      [⟨'a', -70, -64, 3, 3, 70, 0⟩, ⟨' ', 0, 0, 0, 3, 40, 10⟩, ⟨'b', -64, -64, 3, 3, 70, 0⟩]
    let origin : Point := ⟨1, 1⟩
    let red : Rgba := ⟨255, 0, 0, 255⟩
    let blue : Rgba := ⟨0, 0, 255, 255⟩
    let rose : Rgba := ⟨255, 0, 0, 128⟩
    let onBlue := (BoxFont.typesetter.paintRun run red (some blue) origin c .empty).1
    let bare := (BoxFont.typesetter.paintRun run rose none origin c .empty).1
    c.Valid ∧ Glyph.Fits origin run ∧
      onBlue.packed? ⟨3, 1⟩ = some (c.format.pack red) ∧ onBlue.packed? ⟨4, 3⟩ = some (c.format.pack blue) ∧
      onBlue.packed? ⟨6, 0⟩ = c.packed? ⟨6, 0⟩ ∧
      bare.packed? ⟨1, 1⟩ = some (c.format.mix (c.format.mix 0 rose) rose) := by
  intro c run origin red blue rose onBlue bare
  have hc : c.Valid := ⟨by decide, by decide, by decide⟩
  have hrun : Glyph.Fits origin run := ⟨by decide, by decide, by decide⟩
  have hblue := ((BoxFont.typesetter.paintRun_pixels hrun hc red .empty).1 blue).2
  have hbare := (BoxFont.typesetter.paintRun_pixels hrun hc rose .empty).2.2
  refine ⟨hc, hrun, ?_, ?_, ?_, (hbare _).trans (by decide +kernel)⟩
  · exact (hblue _ (by decide)).trans (by decide +kernel)
  · exact (hblue _ (by decide)).trans (by decide +kernel)
  · exact (hblue _ (by decide)).trans (by decide +kernel)

end Typesetter

end Framecast
