import Framecast.Bytes.LittleEndian
import Framecast.Number.Coordinate
import Framecast.Number.Hexadecimal

/-!
# Frames on the wire

A frame is a picture in plain RGBA bytes. On the wire it is a header of sixteen bytes, four signed numbers of 32 bits
with the low byte first, and then the picture. The first number marks the start of a frame; the others are the width,
the height and the number of bytes that follow. Reading checks all four.
-/

namespace Framecast

/-- A picture of four bytes a pixel in row-major order. -/
structure Frame where
  width : Nat
  height : Nat
  pixels : ByteArray

/-- What stands in front of a picture on the wire. -/
structure FrameHeader where
  magic : Int
  width : Int
  height : Int
  size : Int
  deriving DecidableEq

namespace FrameHeader

/-- The number that marks the start of a frame. -/
def mark : Nat := 0xDEADBEEF

/-- The number of bytes of a header. -/
def length : Nat := 16

/-- The header of a picture of a given size. A picture too large for the size field has the greatest size. -/
def ofSize (width height : Nat) : FrameHeader where
  magic := Coordinate.wrap mark
  width := Coordinate.wrap width
  height := Coordinate.wrap height
  size := min (width * height * 4 : Int) Coordinate.greatest

/-- The bytes of a signed number. -/
def encodeField (n : Int) : List UInt8 := LittleEndian.encode 4 (n % 4294967296).toNat

def toBytes (h : FrameHeader) : ByteArray :=
  Buffer.ofList (encodeField h.magic ++ encodeField h.width ++ encodeField h.height ++ encodeField h.size)

/-- The signed number at an index. -/
def decodeField (b : ByteArray) (start : Nat) : Int := Coordinate.wrap (LittleEndian.load b 4 start)

/-- The header at the start of the bytes. -/
def ofBytes (b : ByteArray) : FrameHeader :=
  ⟨decodeField b 0, decodeField b 4, decodeField b 8, decodeField b 12⟩

end FrameHeader

/-- Why bytes are no frame. -/
inductive FrameError where
  | headerCut
  | badMark (found : Nat)
  | negativeSize (width height : Int)
  | sizeMismatch (size width height : Int)
  | payloadCut
  deriving DecidableEq

namespace FrameError

/-- The text shown for the error. -/
def message : FrameError → String
  | headerCut => "failed to read frame header"
  | badMark found => "bad frame magic 0x" ++ String.ofList (Hexadecimal.padded 8 found)
  | negativeSize width height => s!"negative frame size {width}x{height}"
  | sizeMismatch size width height => s!"frame payload size {size} does not match {width}x{height}"
  | payloadCut => "failed to read frame payload"

end FrameError

namespace Frame

def header (f : Frame) : FrameHeader := .ofSize f.width f.height

def encode (f : Frame) : ByteArray := f.header.toBytes ++ f.pixels

/-- Reads the frame at the start of the bytes, and gives it with the bytes after it. -/
def read (b : ByteArray) : Except FrameError (Frame × ByteArray) :=
  if b.size < FrameHeader.length then .error .headerCut
  else
    let h := FrameHeader.ofBytes b
    if h.magic ≠ Coordinate.wrap FrameHeader.mark then .error (.badMark (h.magic % 4294967296).toNat)
    else if h.width < 0 ∨ h.height < 0 then .error (.negativeSize h.width h.height)
    else if h.size < 0 ∨ h.size ≠ h.width * h.height * 4 then .error (.sizeMismatch h.size h.width h.height)
    else
      let stop := FrameHeader.length + h.size.toNat
      if b.size < stop then .error .payloadCut
      else .ok (⟨h.width.toNat, h.height.toNat, b.extract FrameHeader.length stop⟩, b.extract stop b.size)

/-- Reads at most `count` frames and stops at the first error. -/
def readMany : (count : Nat) → ByteArray → List Frame × Option FrameError
  | 0, _ => ([], none)
  | count + 1, b =>
    match read b with
    | .error e => ([], some e)
    | .ok (f, rest) =>
      let (more, e) := readMany count rest
      (f :: more, e)

end Frame

end Framecast
