import Framecast.Canvas.Bitmap

/-!
# Images

A decoded image: rows of colors without padding, and a point in its middle that it is held by. An image decoder says
what image the bytes of a file hold and how the file at a path is loaded.
-/

namespace Framecast

/-- A picture of four bytes a pixel with its hot spot. -/
structure Image where
  width : Nat
  height : Nat
  hot : Point
  pixels : ByteArray

inductive ImageError where
  | wrongLength (found expected width height : Nat)
  | badHeader
  | badData
  | unopened (path : String)
  | undecoded (path : String)
  deriving DecidableEq

namespace ImageError

/-- The text shown for the error. -/
def message : ImageError → String
  | wrongLength found expected width height =>
    s!"image data is {found} bytes, expected {expected} for {width}x{height}"
  | badHeader => "invalid PNG header"
  | badData => "invalid PNG data"
  | unopened path => s!"failed to open image {path}"
  | undecoded path => s!"failed to decode image {path}"

end ImageError

namespace Image

/-- The image of rows without padding, held by its middle. -/
def ofPixels (width height : Nat) (pixels : ByteArray) : Except ImageError Image :=
  if pixels.size = width * height * 4 then
    .ok ⟨width, height, ⟨(Coordinate.wrap width).tdiv 2, (Coordinate.wrap height).tdiv 2⟩, pixels⟩
  else .error (.wrongLength pixels.size (width * height * 4) width height)

/-- The number of bytes of a row. -/
def stride (i : Image) : Nat := i.width * 4

def toBitmap (i : Image) : Bitmap := ⟨i.width, i.height, i.stride, i.pixels⟩

/-- The image in a file, if there is one at the path and it can be decoded. -/
def loadBy (decode : ByteArray → Except ImageError Image) (path : String) (contents : Option ByteArray) :
    Except ImageError Image :=
  match contents with
  | none => .error (.unopened path)
  | some b => (decode b).mapError fun _ => .undecoded path

/-- An image has as many bytes as its size asks for. -/
theorem size_of_ofPixels {width height : Nat} {pixels : ByteArray} {i : Image}
    (h : ofPixels width height pixels = .ok i) : i.pixels.size = i.width * i.height * 4 := by
  simp only [ofPixels] at h
  split at h
  · rename_i hsize
    simp only [Except.ok.injEq] at h
    subst h
    exact hsize
  · cases h

end Image

/-- What makes images of files. A decoder may have a way of its own to load the file at a path. -/
structure ImageDecoder where
  decode : ByteArray → Except ImageError Image
  load : (path : String) → (contents : Option ByteArray) → Except ImageError Image := Image.loadBy decode

end Framecast
