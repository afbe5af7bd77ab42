import Framecast.Proofs.Display.Calls
import Framecast.Proofs.Text.Boxes

/-!
# Drawing makes no holes

Whatever is drawn on a solid surface in colors of full alpha leaves it solid: shapes of any kind, images of any colors
and texts, with or without a background.
-/

namespace Framecast

variable {d : Display} {surface : Surface} {c : Canvas} {format : PixelFormat}

/-- The pens draw in colors of full alpha. An image may have any colors. -/
def Drawing.Solid {Font : Type} : Drawing Font → Prop
  | .rectangle pen _ _ _ => pen.foreground.a = 255
  | .disc pen _ _ => pen.foreground.a = 255
  | .polygon pen _ => pen.foreground.a = 255
  | .lines pen _ => pen.foreground.a = 255
  | .image _ _ => True
  | .text pen background _ _ _ _ _ => pen.foreground.a = 255 ∧ ∀ b ∈ background, b.foreground.a = 255

/-- A text on a background is in a font whose size is a coordinate. -/
def Drawing.Tame : Drawing BoxFont → Prop
  | .text _ (some _) font _ _ _ _ => Coordinate.InRange font.size
  | _ => True

namespace Display

/-- The display after drawings on one surface, in turn. -/
def drawAll {Font Code : Type} (d : Display) (t : Typesetter Font Code) (surface : Surface)
    (what : List (Drawing Font)) : Display :=
  what.foldl (fun d drawing => (d.drawOn t surface drawing).2) d

/-- The surface shows a canvas of the layout of another, without a pixel that lacks full alpha. -/
def ShowsSolid (d : Display) (surface : Surface) (c : Canvas) : Prop :=
  ∃ c', d.screen.canvas? surface = some c' ∧ c.SameLayout c' ∧ c'.SolidOutside c.format fun _ => False

theorem ShowsSolid.draw (h : d.ShowsSolid surface c) {f : Canvas → Canvas} (hlayout : ∀ c, Canvas.SameLayout c (f c))
    (hf : ∀ c', c'.SolidOutside c.format (fun _ => False) → (f c').SolidOutside c.format fun _ => False) :
    (d.draw surface f).2.ShowsSolid surface c := by
  obtain ⟨c', hc', hsame, hsolid⟩ := h
  unfold Display.draw
  split
  · exact ⟨f c', Screen.canvas?_draw_self hc' f, hsame.trans (hlayout c'), hf c' hsolid⟩
  · exact ⟨c', hc', hsame, hsolid⟩

theorem ShowsSolid.drawText (h : d.ShowsSolid surface c) {pen : Pen} {background : Option Pen}
    (hpen : pen.foreground.a = 255) (hbackground : ∀ b ∈ background, b.foreground.a = 255) {font : BoxFont}
    (hfont : background.isSome → Coordinate.InRange font.size) (text : String) (origin : Point)
    (directionX directionY : Int) :
    (d.drawText BoxFont.typesetter surface pen background font text origin directionX directionY).2.ShowsSolid
      surface c := by
  obtain ⟨c', hc', hsame, hsolid⟩ := h
  have hground : ∀ b ∈ background.map Pen.foreground, b.a = 255 := by
    intro b hb
    obtain ⟨pen, hmem, rfl⟩ := Option.map_eq_some_iff.mp hb
    exact hbackground pen hmem
  simp only [Display.drawText, hc', onScreen]
  split
  · refine ⟨_, Screen.canvas?_draw_self hc' _, hsame.trans (BoxFont.typesetter.sameLayout_paintRun _ _ _ _ _ _),
      hsolid.paintRun hpen hground (fun hsome => ?_) _⟩
    rw [Option.isSome_map] at hsome
    exact List.forall_mem_map.mpr fun letter _ => BoxFont.sized_glyph (hfont hsome) letter
  · exact ⟨c', hc', hsame, hsolid⟩

theorem ShowsSolid.drawOn (h : d.ShowsSolid surface c) {what : Drawing BoxFont} (hwhat : what.Solid)
    (htame : what.Tame) :
    (d.drawOn BoxFont.typesetter surface what).2.ShowsSolid surface c := by
  cases what with
  | rectangle pen corner width height =>
      exact h.draw (fun c => pen.sameLayout_rectangle c _ _ _) fun c' hc' => hc'.rectangle hwhat _ _ _
  | disc pen center radius => exact h.draw (fun c => pen.sameLayout_disc c _ _) fun c' hc' => hc'.disc hwhat _ _
  | polygon pen points => exact h.draw (fun c => pen.sameLayout_polygon c _) fun c' hc' => hc'.polygon hwhat _
  | lines pen points => exact h.draw (fun c => pen.sameLayout_polyline _ c _) fun c' hc' => hc'.polyline hwhat _ _
  | image corner image => exact h.draw (fun c => c.sameLayout_pasteOver _ _) fun c' hc' => hc'.pasteOver _ _
  | text pen background font text origin directionX directionY =>
      refine h.drawText hwhat.1 hwhat.2 (fun hsome => ?_) text origin _ _
      cases background with
      | none => cases hsome
      | some ground => exact htame

theorem solid_drawAll (hc : d.screen.canvas? surface = some c) (hvalid : c.Valid) (hsolid : c.Solid)
    {what : List (Drawing BoxFont)} (hwhat : ∀ drawing ∈ what, drawing.Solid) (htame : ∀ drawing ∈ what, drawing.Tame) :
    ∃ c', (d.drawAll BoxFont.typesetter surface what).screen.canvas? surface = some c' ∧ c.SameLayout c' ∧
      c'.Solid := by
  -- `ShowsSolid` is the invariant: the surface keeps its layout and stays solid with every drawing.
  have hstart : d.ShowsSolid surface c := ⟨c, hc, .refl c, hvalid, rfl, fun p color _ => hsolid p color⟩
  obtain ⟨c', hc', hsame, hsolid'⟩ : (d.drawAll BoxFont.typesetter surface what).ShowsSolid surface c :=
    List.foldlRecOn (motive := fun e : Display => e.ShowsSolid surface c) what _ hstart fun e he drawing hmem =>
      he.drawOn (hwhat drawing hmem) (htame drawing hmem)
  exact ⟨c', hc', hsame, fun p color => hsolid'.alpha_eq p color not_false⟩

/-- A root of one white pixel, and a text on a background drawn on it. -/
theorem solid_drawAll_text :
    let root : Canvas := ⟨1, 1, .rgba8888, true, Buffer.replicate 4 255⟩
    let d : Display := ⟨.ofRoot root, .upTo 36, .empty, Png.decoder, .start, true, true, .default⟩
    let pen : Pen := ⟨.black, .transparent, 1⟩
    let what : List (Drawing BoxFont) := [.text pen (some { pen with foreground := .white }) ⟨8, .plain⟩ "a" ⟨0, 4⟩ 0 0]
    root.Solid ∧ (∀ drawing ∈ what, drawing.Solid) ∧ (∀ drawing ∈ what, drawing.Tame) ∧
      ∃ c', (d.drawAll BoxFont.typesetter .root what).screen.canvas? .root = some c' ∧ root.SameLayout c' ∧
        c'.Solid := by
  intro root d pen what
  have hsolid : root.Solid := by
    rintro ⟨x, y⟩ color hcolor
    simp only [Canvas.color?, Canvas.packed?, Canvas.byteIndex?] at hcolor
    split at hcolor
    · rename_i hin
      change 0 ≤ x ∧ x < 1 ∧ 0 ≤ y ∧ y < 1 at hin
      obtain rfl : x = 0 := by omega
      obtain rfl : y = 0 := by omega
      obtain rfl := Option.some.inj hcolor
      decide
    · cases hcolor
  have hvalid : root.Valid := ⟨by decide, by decide, by decide⟩
  have hwhat : ∀ drawing ∈ what, drawing.Solid := by
    simp only [what, List.mem_singleton, forall_eq]
    exact ⟨rfl, fun b hb => by cases hb; rfl⟩
  have htame : ∀ drawing ∈ what, drawing.Tame := by
    simp only [what, List.mem_singleton, forall_eq]
    exact ⟨by decide, by decide⟩
  exact ⟨hsolid, hwhat, htame, solid_drawAll rfl hvalid hsolid hwhat htame⟩

end Display

end Framecast
