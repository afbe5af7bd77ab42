import Framecast.Canvas.Basic

/-!
# Copies between canvases

One canvas is copied onto another row by row. Where the formats agree a row is one range of bytes, given by
`RowOverlap.copy`; otherwise each pixel is unpacked and packed again. A canvas is exported as plain RGBA bytes, four
a pixel, whatever its format.
-/

namespace Framecast

/-- A source row, the target row it lands on, and the source columns that land on the target. -/
structure RowOverlap where
  sourceRow : Int
  targetRow : Int
  columns : Span

/-- A run of bytes to copy from one buffer to another. -/
structure ByteCopy where
  source : Nat
  target : Nat
  count : Nat

namespace Canvas

/-- The part of a source row that lands on the target when the source's corner lies at a point. -/
def rowOverlap? (target source : Canvas) (corner : Point) (row : Int) : Option RowOverlap :=
  let targetRow := corner.y + row
  let first := max (-corner.x) 0
  let limit := min (Coordinate.wrap source.width) (Coordinate.wrap target.width - corner.x)
  if targetRow < 0 ∨ (target.height : Int) ≤ targetRow ∨ limit ≤ first then none
  else some ⟨row, targetRow, ⟨first, limit - 1⟩⟩

/-- The bytes of an overlap when both canvases have the same format. -/
def byteCopy (target source : Canvas) (corner : Point) (o : RowOverlap) : ByteCopy where
  source := source.byteIndex ⟨o.columns.first, o.sourceRow⟩
  target := target.byteIndex ⟨corner.x + o.columns.first, o.targetRow⟩
  count := o.columns.length * target.format.bytesPerPixel

def copyBytes (target source : Canvas) (corner : Point) (o : RowOverlap) : Canvas :=
  let copy := byteCopy target source corner o
  { target with bytes := source.bytes.copySlice copy.source target.bytes copy.target copy.count }

/-- Copies the pixels of an overlap one by one, from format to format. -/
def copyPixels (target source : Canvas) (corner : Point) (o : RowOverlap) : Canvas :=
  o.columns.fold (fun target x =>
    match source.color? ⟨x, o.sourceRow⟩ with
    | none => target
    | some color => target.put ⟨corner.x + x, o.targetRow⟩ (target.format.pack color)) target

/-- Copies what lands on the target of one source row. -/
def copyRow (source : Canvas) (corner : Point) (target : Canvas) (row : Int) : Canvas :=
  match rowOverlap? target source corner row with
  | none => target
  | some o =>
    if source.format = target.format then copyBytes target source corner o
    else copyPixels target source corner o

/-- Copies a whole canvas with its top-left corner at a point. -/
def copyFrom (target source : Canvas) (corner : Point) : Canvas :=
  Span.fold ⟨0, Coordinate.wrap source.height - 1⟩ (copyRow source corner) target

/-- Appends the colors of `count` pixels from the `index`-th on. -/
def appendColors (c : Canvas) : (count index : Nat) → ByteArray → ByteArray
  | 0, _, out => out
  | count + 1, index, out =>
    let color := c.format.unpack (c.loadAt (index * c.format.bytesPerPixel))
    appendColors c count (index + 1) ((((out.push color.r).push color.g).push color.b).push color.a)

/-- The canvas as plain RGBA bytes in row-major order, in place of what a buffer held. -/
def exportInto (c : Canvas) (buffer : ByteArray) : ByteArray :=
  let emptied := buffer.extract 0 0
  match c.format with
  | .rgba8888 => emptied ++ c.bytes
  | _ => appendColors c (c.bytes.size / c.format.bytesPerPixel) 0 emptied

end Canvas

end Framecast
