import Framecast.Bytes.BigEndian
import Framecast.Png.Header

/-!
# Animations

A PNG file may hold an animation. One chunk counts its frames, and a chunk in front of the data of a frame says which
part of the image the frame covers. The data of a frame may stand in chunks of their own kind, whose bodies start with a
number. These chunks and the chunks in front of frames are numbered together from zero.
-/

namespace Framecast.Png

/-- The number of frames in the body of the chunk that counts them. -/
def frameCount? (b : ByteArray) : Option Nat := if 8 ≤ b.size then some (BigEndian.load b 4 0) else none

/-- A frame of an animation: its number and its size. -/
structure AnimationFrame where
  number : Nat
  width : Nat
  height : Nat
  deriving DecidableEq

namespace AnimationFrame

/-- The number behind a frame, and zero if there is none. -/
def numberAfter (previous : Option AnimationFrame) : Nat := (previous.map fun f => f.number + 1).getD 0

/-- The frame in the body of its chunk. It has the next number and covers a part of the image; how it is put onto the
frame before it is one of the ways that there are. -/
def ofBody? (h : Header) (previous : Option AnimationFrame) (b : ByteArray) : Option AnimationFrame := do
  guard (26 ≤ b.size)
  let number := BigEndian.load b 4 0
  guard (number = numberAfter previous)
  let width := BigEndian.load b 4 4
  let height := BigEndian.load b 4 8
  guard (width ≠ 0 ∧ height ≠ 0)
  guard (BigEndian.load b 4 12 + width ≤ h.width ∧ BigEndian.load b 4 16 + height ≤ h.height)
  guard (BigEndian.load b 1 24 ≤ 2 ∧ BigEndian.load b 1 25 ≤ 1)
  return { number, width, height }

end AnimationFrame

end Framecast.Png
