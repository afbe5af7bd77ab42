import Framecast.Bytes.BigEndian

/-!
# Image headers

The size of a PNG image and how its pixels are stored. A pixel has up to four samples of 1, 2, 4, 8 or 16 bits, but not
every kind of pixel allows every depth.
-/

namespace Framecast.Png

/-- What the samples of a pixel mean. -/
inductive PixelKind where
  | gray
  | color
  /-- One sample, the place of a color in the palette. -/
  | indexed
  | grayAlpha
  | colorAlpha
  deriving DecidableEq

/-- The size of an image and the form of its pixels. -/
structure Header where
  width : Nat
  height : Nat
  depth : Nat
  kind : PixelKind
  interlaced : Bool

namespace PixelKind

def ofCode? : Nat → Option PixelKind
  | 0 => some gray
  | 2 => some color
  | 3 => some indexed
  | 4 => some grayAlpha
  | 6 => some colorAlpha
  | _ => none

def samples : PixelKind → Nat
  | gray => 1
  | color => 3
  | indexed => 1
  | grayAlpha => 2
  | colorAlpha => 4

/-- The depths that are allowed. -/
def depths : PixelKind → List Nat
  | gray => [1, 2, 4, 8, 16]
  | indexed => [1, 2, 4, 8]
  | _ => [8, 16]

/-- The number of samples of a pixel when its color is looked up, and transparency has a sample of its own. -/
def shownSamples (kind : PixelKind) (transparency : Bool) : Nat :=
  match kind with
  | gray => if transparency then 2 else 1
  | color => if transparency then 4 else 3
  | indexed => if transparency then 4 else 3
  | grayAlpha => 2
  | colorAlpha => 4

/-- A pixel has an alpha sample when its color is looked up. -/
def hasAlpha (kind : PixelKind) (transparency : Bool) : Bool :=
  match kind with
  | grayAlpha => true
  | colorAlpha => true
  | _ => transparency

end PixelKind

namespace Header

/-- The header in the body of its chunk. Compression and filter method are zero, and interlacing is zero or one. -/
def ofBody? (b : ByteArray) : Option Header := do
  guard (13 ≤ b.size)
  let width := BigEndian.load b 4 0
  let height := BigEndian.load b 4 4
  guard (width ≠ 0 ∧ height ≠ 0)
  let depth := BigEndian.load b 1 8
  let kind ← PixelKind.ofCode? (BigEndian.load b 1 9)
  guard (depth ∈ kind.depths)
  guard (BigEndian.load b 1 10 = 0 ∧ BigEndian.load b 1 11 = 0)
  let interlacing := BigEndian.load b 1 12
  guard (interlacing ≤ 1)
  return { width, height, depth, kind, interlaced := interlacing = 1 }

/-- The samples of the shown image can be counted in 64 bits. -/
def countable (h : Header) : Bool := h.width * h.kind.shownSamples false * h.height < 18446744073709551616

def pixelBits (h : Header) : Nat := h.depth * h.kind.samples

/-- The number of bytes of a row of so many pixels. -/
def rowBytes (h : Header) (width : Nat) : Nat := (h.pixelBits * width + 7) / 8

/-- The distance of a byte from the byte of the pixel to the left, at least one. -/
def pixelBytes (h : Header) : Nat := max (h.pixelBits / 8) 1

end Header

end Framecast.Png
