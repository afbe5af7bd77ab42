import Framecast.Png.Ancillary
import Framecast.Png.Animation
import Framecast.Png.Chunk
import Framecast.Png.Memory

/-!
# What stands in front of the image data

The header, the palette, the transparency and the first frame of an animation. A chunk without a body says nothing. The
body of a chunk counts even if its check is wrong, but no reading goes on behind a wrong check of a critical chunk.
-/

namespace Framecast.Png

/-- What the chunks in front of the image data say. -/
structure Preface where
  header : Header
  palette : Option ByteArray
  transparency : Option ByteArray
  /-- The number of frames of the animation. -/
  frames : Option Nat
  /-- The frame that was described last. -/
  frame : Option AnimationFrame
  /-- The kinds of the chunks that count once and were read. -/
  seen : List String
  memory : Memory

namespace Preface

/-- Only the header was read. -/
def ofHeader (header : Header) (memory : Memory) : Preface := ⟨header, none, none, none, none, [], memory⟩

/-! ## The image that the data are for -/

/-- The width of the frame, or of the image if there is no frame. -/
def width (p : Preface) : Nat := (p.frame.map AnimationFrame.width).getD p.header.width

/-- The height of the frame, or of the image if there is no frame. -/
def height (p : Preface) : Nat := (p.frame.map AnimationFrame.height).getD p.header.height

/-- The number of images in the file: the frames, and one in front of them if the data come before the first frame. -/
def images (p : Preface) : Nat :=
  match p.frames with
  | none => 1
  | some count => if p.frame.isSome then count else count + 1

/-- The number of samples of a pixel when its color is looked up. -/
def shownSamples (p : Preface) : Nat := p.header.kind.shownSamples p.transparency.isSome

/-! ## Chunks -/

/-- Takes memory, if there is enough. -/
def taking (p : Preface) (count : Nat) : Option Preface := (p.memory.take? count).map fun memory => { p with memory }

def withPalette (p : Preface) (body : ByteArray) : Option Preface := do
  guard p.palette.isNone
  return { (← p.taking body.size) with palette := some body }

/-- A transparency of `size` bytes is long enough for the pixels, which have no alpha of their own, and stands after the
palette if they need one. -/
def allowsTransparency (p : Preface) (size : Nat) : Bool :=
  match p.header.kind with
  | .gray => 2 ≤ size
  | .color => 6 ≤ size
  | .indexed => p.palette.isSome
  | .grayAlpha => false
  | .colorAlpha => false

def withTransparency (p : Preface) (body : ByteArray) : Option Preface := do
  guard (p.transparency.isNone && p.allowsTransparency body.size)
  return { (← p.taking body.size) with transparency := some body }

/-- Adds the significant bits of the samples. They are passed over behind a palette or when they were read before. -/
def withSignificantBits (p : Preface) (body : ByteArray) : Preface :=
  if p.palette.isSome || "sBIT" ∈ p.seen then p
  else
    match p.taking body.size with
    | none => p
    | some p => if Ancillary.areSignificantBits p.header body then { p with seen := "sBIT" :: p.seen } else p

/-- Adds a color profile. Only the first is looked at. -/
def withProfile (p : Preface) (body : ByteArray) : Preface :=
  if "iCCP" ∈ p.seen then p
  else
    let p := { p with seen := "iCCP" :: p.seen }
    (Ancillary.profile? body >>= fun profile => p.taking profile.size).getD p

/-- Adds a chunk that does not change the pixels. -/
def withAncillary (p : Preface) (kind : String) (body : ByteArray) : Option Preface := do
  guard (kind ∉ p.seen ∧ Ancillary.wellFormed kind body = true)
  let p ← if kind ∈ Ancillary.texts then p.taking body.size else some p
  return if kind ∈ Ancillary.single then { p with seen := kind :: p.seen } else p

/-- Adds what a chunk with a body says. -/
def withChunk (p : Preface) (c : Chunk) : Option Preface := do
  let p := { p with memory := ← p.memory.fit? c.body.size }
  match c.kind with
  | "IHDR" => none
  | "PLTE" => p.withPalette c.body
  | "tRNS" => p.withTransparency c.body
  | "acTL" => (frameCount? c.body).map fun count => { p with frames := some count }
  | "fcTL" => (AnimationFrame.ofBody? p.header p.frame c.body).map fun frame => { p with frame := some frame }
  | "sBIT" => return p.withSignificantBits c.body
  | "iCCP" => return p.withProfile c.body
  | kind => p.withAncillary kind c.body

/-! ## Reading -/

/-- Adds the chunks from `start` on up to the image data, at most so many of them. Image data of an animation follow a
frame and start with a number. -/
def readFrom (b : ByteArray) : (fuel start : Nat) → Preface → Option (Preface × Nat)
  | 0, _, _ => none
  | fuel + 1, start, p => do
    let (length, kind) ← Chunk.front? b start
    match kind with
    | "IDAT" => return (p, start)
    | "fdAT" =>
      guard (p.frame.isSome ∧ 4 ≤ length)
      return (p, start)
    | "IEND" => none
    | _ =>
      let c ← Chunk.at? b start
      let p ← if c.body.size = 0 then some p else p.withChunk c
      guard (c.sound || !c.critical)
      readFrom b fuel (start + c.size) p

/-- The header and what is behind it up to the image data, if it is one of the first so many chunks from `start` on.
Header chunks without a body may stand in front of it. -/
def readHeaderFrom (b : ByteArray) : (fuel start : Nat) → Option (Preface × Nat)
  | 0, _ => none
  | fuel + 1, start => do
    let c ← Chunk.at? b start
    guard (c.kind = "IHDR" ∧ c.sound)
    if c.body.size = 0 then readHeaderFrom b fuel (start + c.size)
    else
      let memory ← Memory.initial.fit? c.body.size
      let header ← Header.ofBody? c.body
      guard header.countable
      readFrom b b.size (start + c.size) (ofHeader header memory)

/-- The preface of a file and the place of its image data. A row of shown samples must fit into the memory. -/
def read (b : ByteArray) : Option (Preface × Nat) := do
  guard (hasSignature b)
  let (p, start) ← readHeaderFrom b b.size 8
  let p ← p.taking (p.width * p.shownSamples)
  return (p, start)

end Preface

end Framecast.Png
