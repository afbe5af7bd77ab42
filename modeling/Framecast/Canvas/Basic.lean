import Framecast.Bytes.LittleEndian
import Framecast.Color.PixelFormat
import Framecast.Geometry.Point
import Framecast.Geometry.Span
import Framecast.Number.Coordinate

/-!
# Canvases

A canvas is a pixel buffer in row-major order together with what a shape needs to know to draw on it: the pixel
format and whether edges are smoothed. Every write is clipped to the canvas. `Canvas.Valid` is the invariant of every
canvas that `Canvas.create` makes: both sides are at least one and the buffer holds exactly the pixels. Whether there is
memory for a buffer is up to an `Allocator`.
-/

namespace Framecast

/-- What grants the memory for buffers, or refuses it. -/
structure Allocator where
  grants : (size : Nat) → Bool

/-- The allocator that grants buffers up to a size. -/
def Allocator.upTo (limit : Nat) : Allocator := ⟨fun size => size ≤ limit⟩

/-- A pixel buffer with its format and edge mode. -/
structure Canvas where
  width : Nat
  height : Nat
  format : PixelFormat
  antialias : Bool
  bytes : ByteArray

namespace Canvas

/-- Both sides are at least one and the buffer holds exactly the pixels. -/
structure Valid (c : Canvas) : Prop where
  width_pos : 0 < c.width
  height_pos : 0 < c.height
  size_eq : c.bytes.size = c.width * c.height * c.format.bytesPerPixel

/-- There is a buffer for a canvas of this size: it is not empty, its size is a number of 64 bits, and it is granted. -/
def Allocatable (allocator : Allocator) (width height : Nat) (format : PixelFormat) : Prop :=
  0 < width * height * format.bytesPerPixel ∧ width * height * format.bytesPerPixel < 18446744073709551616 ∧
    allocator.grants (width * height * format.bytesPerPixel) = true

instance (allocator : Allocator) (width height : Nat) (format : PixelFormat) :
    Decidable (Allocatable allocator width height format) :=
  inferInstanceAs (Decidable (_ ∧ _ ∧ _))

/-- The zeroed buffer for a canvas. -/
def allocate (allocator : Allocator) (width height : Nat) (format : PixelFormat) : Except SurfaceError ByteArray :=
  if Allocatable allocator width height format then .ok (Buffer.zeros (width * height * format.bytesPerPixel))
  else .error (.allocationFailed width height)

/-- A canvas on which every byte is zero. -/
def create (allocator : Allocator) (width height : Nat) (format : PixelFormat) (antialias : Bool) :
    Except SurfaceError Canvas := do
  let bytes ← allocate allocator width height format
  return { width, height, format, antialias, bytes }

/-- The canvas with a fresh zeroed buffer of another size. -/
def resize (c : Canvas) (allocator : Allocator) (width height : Nat) : Except SurfaceError Canvas := do
  let bytes ← allocate allocator width height c.format
  return { c with width, height, bytes }

/-- The number of bytes of one row. -/
def stride (c : Canvas) : Nat := c.width * c.format.bytesPerPixel

/-- The point lies on the canvas. -/
def Contains (c : Canvas) (p : Point) : Prop := 0 ≤ p.x ∧ p.x < c.width ∧ 0 ≤ p.y ∧ p.y < c.height

instance (c : Canvas) (p : Point) : Decidable (c.Contains p) :=
  inferInstanceAs (Decidable (_ ∧ _ ∧ _ ∧ _))

/-- The index of the first byte of a pixel, counted as if the point were on the canvas. -/
def byteIndex (c : Canvas) (p : Point) : Nat := p.y.toNat * c.stride + p.x.toNat * c.format.bytesPerPixel

/-- The index of the first byte of a pixel on the canvas. -/
def byteIndex? (c : Canvas) (p : Point) : Option Nat := if c.Contains p then some (c.byteIndex p) else none

/-- The packed number stored from a byte index on. -/
def loadAt (c : Canvas) (index : Nat) : Nat := LittleEndian.load c.bytes c.format.bytesPerPixel index

/-- Stores a packed number from a byte index on. -/
def storeAt (c : Canvas) (index value : Nat) : Canvas :=
  { c with bytes := LittleEndian.store c.bytes c.format.bytesPerPixel index value }

def packed? (c : Canvas) (p : Point) : Option Nat := (c.byteIndex? p).map c.loadAt

def color? (c : Canvas) (p : Point) : Option Rgba := (c.packed? p).map c.format.unpack

/-- Overwrites one pixel with a packed number. -/
def put (c : Canvas) (p : Point) (value : Nat) : Canvas :=
  match c.byteIndex? p with
  | none => c
  | some index => c.storeAt index value

/-- Paints a color over one pixel. A color of alpha zero changes nothing. -/
def blend (c : Canvas) (p : Point) (color : Rgba) : Canvas :=
  if color.a = 0 then c
  else
    match c.byteIndex? p with
    | none => c
    | some index => c.storeAt index (c.format.pack (color.paintedOver (c.format.unpack (c.loadAt index))))

/-- The last column as a signed 32-bit number. -/
def lastColumn (c : Canvas) : Int := Coordinate.wrap (Coordinate.wrap c.width - 1)

/-- The last row as a signed 32-bit number. -/
def lastRow (c : Canvas) : Int := Coordinate.wrap (Coordinate.wrap c.height - 1)

/-- Overwrites the pixels of row `y` from column `a` to column `b`, in any order. -/
def putRow (c : Canvas) (a b y : Int) (value : Nat) : Canvas :=
  if y < 0 ∨ (c.height : Int) ≤ y then c
  else ((Span.between a b).clip 0 c.lastColumn).fold (fun c x => c.storeAt (c.byteIndex ⟨x, y⟩) value) c

/-- Overwrites a rectangle. The far edges saturate at the ends of the coordinate range. -/
def putRect (c : Canvas) (corner : Point) (width height : Nat) (value : Nat) : Canvas :=
  if width = 0 ∨ height = 0 then c
  else
    let right := Coordinate.saturate (corner.x + (min (width : Int) Coordinate.greatest - 1))
    let bottom := Coordinate.saturate (corner.y + min (height : Int) Coordinate.greatest)
    (Span.clip ⟨corner.y, bottom - 1⟩ 0 (c.height - 1)).fold (fun c y => c.putRow corner.x right y value) c

/-- The canvas as a line of text. -/
def describe (c : Canvas) : String :=
  s!"Canvas \x7b width: {c.width}, height: {c.height}, format: {c.format.name}, antialias: {c.antialias} \x7d"

/-! ## Validity -/

section

variable {allocator : Allocator} {width height : Nat} {format : PixelFormat}

theorem allocate_eq_ok_iff {bytes : ByteArray} :
    allocate allocator width height format = .ok bytes ↔
      Allocatable allocator width height format ∧ bytes = Buffer.zeros (width * height * format.bytesPerPixel) := by
  unfold allocate
  split
  · rename_i hgranted
    rw [Except.ok.injEq]
    exact ⟨fun h => ⟨hgranted, h.symm⟩, fun h => h.2.symm⟩
  · rename_i hrefused
    exact ⟨nofun, fun h => absurd h.1 hrefused⟩

theorem valid_of_create {antialias : Bool} {c : Canvas} (h : create allocator width height format antialias = .ok c) :
    c.Valid := by
  cases hb : allocate allocator width height format with
  | error e => simp [create, hb, bind, Except.bind] at h
  | ok bytes =>
    simp only [create, hb, bind, Except.bind, pure, Except.pure, Except.ok.injEq] at h
    subst h
    obtain ⟨⟨hpos, -⟩, rfl⟩ := allocate_eq_ok_iff.mp hb
    have hwh : 0 < width * height := Nat.pos_of_mul_pos_right hpos
    exact ⟨Nat.pos_of_mul_pos_right hwh, Nat.pos_of_mul_pos_left hwh, Buffer.size_zeros _⟩

theorem Valid.resize {c d : Canvas} (h : c.resize allocator width height = .ok d) : d.Valid := by
  cases hb : allocate allocator width height c.format with
  | error e => simp [Canvas.resize, hb, bind, Except.bind] at h
  | ok bytes =>
    simp only [Canvas.resize, hb, bind, Except.bind, pure, Except.pure, Except.ok.injEq] at h
    subst h
    obtain ⟨⟨hpos, -⟩, rfl⟩ := allocate_eq_ok_iff.mp hb
    have hwh : 0 < width * height := Nat.pos_of_mul_pos_right hpos
    exact ⟨Nat.pos_of_mul_pos_right hwh, Nat.pos_of_mul_pos_left hwh, Buffer.size_zeros _⟩

end

end Canvas

end Framecast
