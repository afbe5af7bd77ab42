import Framecast.Picture.Image
import Framecast.Png.Preface

/-!
# The contents of a file

What the chunks of a PNG file say before anything is said about pixels: the preface and the compressed image data. All
that goes wrong before the first chunk of image data is a fault of the header, and all that goes wrong from there on is
a fault of the data. Nothing behind the image data is read.
-/

namespace Framecast.Png

/-- The preface and the compressed image data. -/
structure Contents where
  preface : Preface
  data : ByteArray

/-- The image data in a chunk. Those of an animation stand behind the number that the chunk should have, and their check
is not looked at. -/
def Chunk.imageData? (c : Chunk) (number : Nat) : Option ByteArray :=
  if c.kind = "IDAT" then if c.sound then some c.body else none
  else if 4 ≤ c.body.size ∧ BigEndian.load c.body 4 0 = number then some (c.body.extract 4 c.body.size)
  else none

/-- The image data in the chunks of a kind that follow each other from `start` on, at most so many of them. The front of
the chunk behind them must be there. -/
def dataFrom (b : ByteArray) (kind : String) : (fuel start number : Nat) → ByteArray → Option ByteArray
  | 0, _, _, _ => none
  | fuel + 1, start, number, data => do
    let (_, found) ← Chunk.front? b start
    if found = kind then
      let c ← Chunk.at? b start
      dataFrom b kind fuel (start + c.size) (number + 1) (data ++ (← c.imageData? number))
    else return data

/-- The image data from `start` on, if the file has an image. -/
def Preface.data? (p : Preface) (b : ByteArray) (start : Nat) : Option ByteArray := do
  guard (p.images ≠ 0)
  let (_, kind) ← Chunk.front? b start
  dataFrom b kind b.size start (AnimationFrame.numberAfter p.frame) ByteArray.empty

def Contents.read (b : ByteArray) : Except ImageError Contents :=
  match Preface.read b with
  | none => .error .badHeader
  | some (preface, start) =>
    match preface.data? b start with
    | none => .error .badData
    | some data => .ok ⟨preface, data⟩

end Framecast.Png
