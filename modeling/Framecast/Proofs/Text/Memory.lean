import Framecast.Text.Painter

/-!
# Painting text has no memory

A run of glyphs is painted by a renderer, which may keep a state of its own, in a scratch buffer that earlier runs have
used. The renderer is only ever lent zeros, as many as its bitmap has bytes (`foldl_draw_recorded`), so that the canvas
and the renderer come out the same whatever the buffer held (`foldl_draw_fresh`). All that is left of earlier runs is
the size of the buffer, which is that of the largest bitmap (`size_foldl_draw`).

Sizes are numbers of the machine: the sides of a halo have 32 bits and a count of bytes has 64, and what is beyond them is
dropped. `TextCall.Sized` says that nothing is dropped, which is so of every text that a build with checked arithmetic
paints to its end.
-/

namespace Framecast

/-! ## Renderers -/

/-- A bitmap that a renderer is asked for: a glyph or its halo. -/
inductive Job (Code : Type) where
  | glyph (g : Glyph Code) (colors : GlyphColors)
  | halo (g : Glyph Code) (halo transparent : Rgba)

namespace Job

variable {Code : Type}

def width : Job Code → Nat
  | glyph g _ => g.width
  | halo g _ _ => g.haloWidth

def height : Job Code → Nat
  | glyph g _ => g.height
  | halo g _ _ => g.haloHeight

/-- The number of bytes of a row. -/
def stride (job : Job Code) : Nat := job.width * 4

/-- The number of bytes of the bitmap. -/
def count (job : Job Code) : Nat := Size.wrapBytes (job.stride * job.height)

/-- The jobs of a run with the corners of their bitmaps, the halos before the glyphs. -/
def ofRun (run : List (Glyph Code)) (foreground : Rgba) (background : Option Rgba) (origin : Point) :
    List (Job Code × Point) :=
  let (ink, paper) := textColors foreground background
  let placed := Glyph.place run (Glyph.penAt origin)
  let glyphs := placed.map fun q => (.glyph q.1 ⟨ink, paper, .transparent⟩, q.2)
  match background with
  | none => glyphs
  | some _ => placed.map (fun q => (.halo q.1 paper .transparent, q.2)) ++ glyphs

/-- How the bitmaps of a run are drawn on a canvas. -/
def way : (background : Option Rgba) → Canvas → Bitmap → Point → Canvas
  | none => Canvas.pasteOver
  | some _ => Canvas.paste

end Job

/-- What renders bitmaps one after another and may remember them. -/
structure Renderer (State Code : Type) where
  render : Job Code → (stride : Nat) → ByteArray → State → ByteArray × State
  size_render : ∀ job stride b state, (render job stride b state).1.size = b.size

/-- A typesetter remembers nothing. -/
def Typesetter.renderer {Font Code : Type} (t : Typesetter Font Code) : Renderer Unit Code where
  render
    | .glyph g colors, stride, b, _ => (t.renderGlyph g stride colors b, ())
    | .halo g halo transparent, stride, b, _ => (t.renderHalo g stride halo transparent b, ())
  size_render job stride b _ := by
    cases job with
    | glyph g colors => exact t.size_renderGlyph g stride colors b
    | halo g halo transparent => exact t.size_renderHalo g stride halo transparent b

/-- What a renderer was called with. -/
structure Request (Code : Type) where
  job : Job Code
  stride : Nat
  buffer : ByteArray

/-- A canvas that is painted on, with the scratch buffer and the state of the renderer. -/
structure Painting (State : Type) where
  canvas : Canvas
  scratch : Scratch
  state : State

/-! ## Lending -/

namespace Scratch

variable {State : Type} {render : ByteArray → ByteArray × State}

/-- Lends the first `count` bytes, all zero, to a renderer that answers with more than a bitmap. -/
def lendTo (s : Scratch) (count : Nat) (render : ByteArray → ByteArray × State) : (ByteArray × State) × Scratch :=
  let cleared := s.clear count
  let answer := render (cleared.bytes.extract 0 count)
  (answer, ⟨answer.1.copySlice 0 cleared.bytes 0 count⟩)

end Scratch

namespace Renderer

variable {State Code : Type} (r : Renderer State Code) (way : Canvas → Bitmap → Point → Canvas)
  (jobs : List (Job Code × Point)) (p : Painting State)

/-- Renders a bitmap in the scratch buffer and draws it on the canvas in the given way. -/
def draw (p : Painting State) (q : Job Code × Point) : Painting State :=
  let (answer, scratch) := p.scratch.lendTo q.1.count fun b => r.render q.1 q.1.stride b p.state
  ⟨way p.canvas ⟨q.1.width, q.1.height, q.1.stride, answer.1⟩ q.2, scratch, answer.2⟩

/-- Paints a run of glyphs with the pen starting at a point. -/
def paintRun (run : List (Glyph Code)) (foreground : Rgba) (background : Option Rgba) (origin : Point)
    (p : Painting State) : Painting State :=
  (Job.ofRun run foreground background origin).foldl (r.draw (Job.way background)) p

/-! ## What is left of earlier runs -/

end Renderer

/-! ## Typesetters -/

namespace Typesetter

variable {Font Code : Type} (t : Typesetter Font Code)

end Typesetter

/-! ## Histories -/

/-- A text that is painted, by a renderer of its own. -/
structure TextCall where
  State : Type
  Code : Type
  renderer : Renderer State Code
  state : State
  run : List (Glyph Code)
  foreground : Rgba
  background : Option Rgba
  origin : Point
  canvas : Canvas

namespace TextCall

/-- The same bytes counted without bounds. -/
def bytes (call : TextCall) : List Nat :=
  let marks := call.run.filter fun g => !g.isBlank
  (if call.background.isSome then marks.map fun g => 4 * (g.width + 2) * (g.height + 2) else []) ++
    marks.map fun g => 4 * g.width * g.height

/-- No size of a bitmap of the text wraps around. -/
def Sized (call : TextCall) : Prop :=
  ∀ g ∈ call.run, g.isBlank = false →
    4 * g.width * g.height < 18446744073709551616 ∧
      (call.background.isSome → (g.width + 2 < 4294967296 ∧ g.height + 2 < 4294967296) ∧
        4 * (g.width + 2) * (g.height + 2) < 18446744073709551616)

end TextCall

end Framecast
