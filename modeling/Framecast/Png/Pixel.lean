import Framecast.Color.Rgba
import Framecast.Png.Preface

/-!
# Pixels

The color of a pixel in a restored row. Samples of sixteen bits keep the high byte, gray samples of less than eight bits
are spread over the whole range. A palette gives a solid color to each of its places, and its transparency an alpha to
the first of them; places outside the palette are black. In the other kinds without alpha, one color is transparent.
-/

namespace Framecast.Png

/-- The sample of less than eight bits at a place of a row, the first in the highest bits. -/
def narrowSample (depth : Nat) (row : ByteArray) (place : Nat) : Nat :=
  let perByte := 8 / depth
  (Buffer.byteAt row (place / perByte)).toNat >>> ((perByte - 1 - place % perByte) * depth) % (1 <<< depth)

/-- The bytes of a buffer from `start`. -/
def bytesAt (b : ByteArray) (start count : Nat) : List UInt8 :=
  (List.range count).map fun i => Buffer.byteAt b (start + i)

namespace Preface

/-- The samples of a pixel as bytes: one of them for each sample of up to eight bits, and two for each of sixteen. -/
def sampleBytes (p : Preface) (row : ByteArray) (column : Nat) : List UInt8 :=
  let h := p.header
  if h.depth < 8 then [(narrowSample h.depth row column).toUInt8]
  else bytesAt row (column * h.pixelBytes) h.pixelBytes

/-- The bytes of the samples that are transparent: the low byte of each sample of up to eight bits, and all bytes for
samples of sixteen. -/
def transparentBytes (p : Preface) : Option (List UInt8) :=
  p.transparency.map fun t =>
    if p.header.depth = 16 then Buffer.toList t
    else (List.range p.header.kind.samples).map fun i => Buffer.byteAt t (2 * i + 1)

/-- The alpha of a pixel of a kind without alpha. -/
def alphaOf (p : Preface) (samples : List UInt8) : UInt8 := if p.transparentBytes = some samples then 0 else 255

/-- The color at a place of the palette. A transparency longer than the palette is ignored. -/
def paletteColor (p : Preface) (palette : ByteArray) (place : Nat) : Rgba :=
  let t := p.transparency.getD ByteArray.empty
  let alpha := if t.size ≤ palette.size / 3 ∧ place < t.size then Buffer.byteAt t place else 255
  if place < palette.size / 3 then
    ⟨Buffer.byteAt palette (3 * place), Buffer.byteAt palette (3 * place + 1), Buffer.byteAt palette (3 * place + 2),
      alpha⟩
  else ⟨0, 0, 0, alpha⟩

/-- The samples of a pixel brought to eight bits. -/
def levels (p : Preface) (samples : List UInt8) : List UInt8 :=
  if p.header.depth = 16 then (List.range (samples.length / 2)).map fun i => samples[2 * i]?.getD 0
  else if p.header.depth < 8 then samples.map fun s => s * (255 / (1 <<< p.header.depth - 1)).toUInt8
  else samples

/-- The color of the pixel in a column of a row, if the palette is there that it may need. -/
def color? (p : Preface) (row : ByteArray) (column : Nat) : Option Rgba :=
  let samples := p.sampleBytes row column
  match p.header.kind, p.levels samples with
  | .gray, [v] => some ⟨v, v, v, p.alphaOf samples⟩
  | .color, [r, g, b] => some ⟨r, g, b, p.alphaOf samples⟩
  | .grayAlpha, [v, a] => some ⟨v, v, v, a⟩
  | .colorAlpha, [r, g, b, a] => some ⟨r, g, b, a⟩
  | .indexed, _ => p.palette.map fun palette => p.paletteColor palette (samples.headD 0).toNat
  | _, _ => none

end Preface

end Framecast.Png
