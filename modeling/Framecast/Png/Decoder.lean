import Framecast.Png.Contents
import Framecast.Png.Pixel
import Framecast.Png.Scanline

/-!
# Decoding

The image in the bytes of a PNG file, or its first frame if that is described in front of the data. An interlaced image
is stored as seven smaller ones, each with the pixels of a regular grid; a plain one is a single grid with all pixels.
The rows of the grids follow each other in the inflated data, and data behind them are passed over.
-/

namespace Framecast.Png

/-- A regular grid of pixels: the first column and row, and the distances to the next. -/
structure Grid where
  firstColumn : Nat
  firstRow : Nat
  columnStep : Nat
  rowStep : Nat
  deriving DecidableEq

namespace Grid

/-- All pixels. -/
def plain : List Grid := [⟨0, 0, 1, 1⟩]

/-- The seven grids of an interlaced image. -/
def interlaced : List Grid :=
  [⟨0, 0, 8, 8⟩, ⟨4, 0, 8, 8⟩, ⟨0, 4, 4, 8⟩, ⟨2, 0, 4, 4⟩, ⟨0, 2, 2, 4⟩, ⟨1, 0, 2, 2⟩, ⟨0, 1, 1, 2⟩]

def columns (g : Grid) (width : Nat) : Nat := (width - g.firstColumn + g.columnStep - 1) / g.columnStep

/-- The number of rows of the grid in an image of a given height; none if the grid has no column. -/
def rows (g : Grid) (width height : Nat) : Nat :=
  if g.columns width = 0 then 0 else (height - g.firstRow + g.rowStep - 1) / g.rowStep

end Grid

def Header.grids (h : Header) : List Grid := if h.interlaced then Grid.interlaced else Grid.plain

/-- Appends pixels of one color. -/
def pushPixels (c : Rgba) : (count : Nat) → ByteArray → ByteArray
  | 0, pixels => pixels
  | count + 1, pixels => pushPixels c count ((((pixels.push c.r).push c.g).push c.b).push c.a)

/-- Puts a color into the pixels of an image; nothing changes behind the last pixel. -/
def putColor (pixels : ByteArray) (index : Nat) (c : Rgba) : ByteArray :=
  Buffer.put (Buffer.put (Buffer.put (Buffer.put pixels index c.r) (index + 1) c.g) (index + 2) c.b) (index + 3) c.a

namespace Preface

/-- The number of bytes that the rows of a grid take in the inflated data. -/
def gridBytes (p : Preface) (g : Grid) : Nat :=
  g.rows p.width p.height * (1 + p.header.rowBytes (g.columns p.width))

/-- The distance of a pixel from the pixel above. The pixels of an interlaced frame are put where they would be in the
whole image. -/
def pitch (p : Preface) : Nat := if p.header.interlaced then p.header.width else p.width

/-- The color of the pixels that no grid reaches: zero in every sample that there is. -/
def blank (p : Preface) : Rgba := ⟨0, 0, 0, if p.header.kind.hasAlpha p.transparency.isSome then 0 else 255⟩

/-- Puts `count` pixels of a row of a grid, from a column of the grid on, into row `y` of the image. -/
def putRow (p : Preface) (g : Grid) (row : ByteArray) (y : Nat) :
    (count column : Nat) → ByteArray → Option ByteArray
  | 0, _, pixels => some pixels
  | count + 1, column, pixels => do
    let color ← p.color? row column
    let x := g.firstColumn + column * g.columnStep
    putRow p g row y count (column + 1) (putColor pixels ((y * p.pitch + x) * 4) color)

def putRows (p : Preface) (g : Grid) : (rows : List ByteArray) → (y : Nat) → ByteArray → Option ByteArray
  | [], _, pixels => some pixels
  | row :: rest, y, pixels => do
    putRows p g rest (y + g.rowStep) (← p.putRow g row y (g.columns p.width) 0 pixels)

/-- Puts grids, whose rows start at `start` in the data, into the image. -/
def putGrids (p : Preface) (data : ByteArray) : (grids : List Grid) → (start : Nat) → ByteArray → Option ByteArray
  | [], _, pixels => some pixels
  | g :: rest, start, pixels => do
    let rows ← restoreRows p.header.pixelBytes data (p.header.rowBytes (g.columns p.width))
      (g.rows p.width p.height) start ByteArray.empty
    putGrids p data rest (start + p.gridBytes g) (← p.putRows g rows g.firstRow pixels)

/-- The pixels of the image in the inflated data. -/
def pixels? (p : Preface) (data : ByteArray) : Option ByteArray := do
  let grids := p.header.grids
  guard (grids.foldl (fun n g => n + p.gridBytes g) 0 ≤ data.size)
  p.putGrids data grids 0 (pushPixels p.blank (p.width * p.height) ByteArray.empty)

end Preface

def decode (b : ByteArray) : Except ImageError Image := do
  let contents ← Contents.read b
  let p := contents.preface
  match Flate.unwrap contents.data >>= p.pixels? with
  | none => .error .badData
  | some pixels => Image.ofPixels p.width p.height pixels

def decoder : ImageDecoder where
  decode := decode

end Framecast.Png
