import Framecast.Bytes.LittleEndian
import Framecast.Color.Rgba
import Framecast.SurfaceError

/-!
# Pixel formats

A pixel format packs the four channels of a color into one number of 8, 16 or 32 bits. The narrow formats keep the
high bits of every channel, and unpacking spreads what was kept over the whole range from 0 to 255. The main
statement is `pack_unpack`: packing what was unpacked gives the number back, so a pixel never drifts when it is
read and written.
-/

namespace Framecast

/-- How many bits of each channel a pixel keeps. -/
inductive PixelFormat where
  /-- Two bits a channel in one byte, red highest. -/
  | rgba2222
  /-- Four bits a channel in two bytes, red highest. -/
  | rgba4444
  /-- Eight bits a channel in four bytes, red in the lowest. -/
  | rgba8888
  deriving DecidableEq, Inhabited

namespace PixelFormat

def bytesPerPixel : PixelFormat → Nat
  | rgba2222 => 1
  | rgba4444 => 2
  | rgba8888 => 4

def bitsPerPixel (f : PixelFormat) : Nat := f.bytesPerPixel * 8

def name : PixelFormat → String
  | rgba2222 => "Rgba2222"
  | rgba4444 => "Rgba4444"
  | rgba8888 => "Rgba8888"

/-- The format of a given depth. -/
def ofBitsPerPixel : Nat → Except SurfaceError PixelFormat
  | 8 => .ok rgba2222
  | 16 => .ok rgba4444
  | 32 => .ok rgba8888
  | bits => .error (.unsupportedDepth bits)

/-- Packs a color into the number that stands for it. -/
def pack : PixelFormat → Rgba → Nat
  | rgba2222, c =>
    c.r.toNat / 64 * 64 + c.g.toNat / 64 * 16 + c.b.toNat / 64 * 4 + c.a.toNat / 64
  | rgba4444, c =>
    c.r.toNat / 16 * 4096 + c.g.toNat / 16 * 256 + c.b.toNat / 16 * 16 + c.a.toNat / 16
  | rgba8888, c =>
    c.r.toNat + c.g.toNat * 256 + c.b.toNat * 65536 + c.a.toNat * 16777216

/-- The color that a packed number stands for. -/
def unpack : PixelFormat → Nat → Rgba
  | rgba2222, v =>
    ⟨(v / 64 % 4 * 85).toUInt8, (v / 16 % 4 * 85).toUInt8, (v / 4 % 4 * 85).toUInt8, (v % 4 * 85).toUInt8⟩
  | rgba4444, v =>
    ⟨(v / 4096 % 16 * 17).toUInt8, (v / 256 % 16 * 17).toUInt8, (v / 16 % 16 * 17).toUInt8,
      (v % 16 * 17).toUInt8⟩
  | rgba8888, v =>
    ⟨(v % 256).toUInt8, (v / 256 % 256).toUInt8, (v / 65536 % 256).toUInt8, (v / 16777216 % 256).toUInt8⟩

theorem bytesPerPixel_pos (f : PixelFormat) : 0 < f.bytesPerPixel := by
  cases f <;> decide

theorem pack_lt (f : PixelFormat) (c : Rgba) : f.pack c < LittleEndian.range f.bytesPerPixel := by
  have hr := c.r.toNat_lt
  have hg := c.g.toNat_lt
  have hb := c.b.toNat_lt
  have ha := c.a.toNat_lt
  cases f <;> simp only [pack, bytesPerPixel, LittleEndian.range, Nat.reduceMul] <;> omega

/-- A channel of two bits survives the spreading. -/
theorem spread_two_bits (q : Nat) : q % 4 * 85 % 256 / 64 = q % 4 :=
  (by decide : ∀ m < 4, m * 85 % 256 / 64 = m) _ (Nat.mod_lt q (by decide))

/-- A channel of four bits survives the spreading. -/
theorem spread_four_bits (q : Nat) : q % 16 * 17 % 256 / 16 = q % 16 :=
  (by decide : ∀ m < 16, m * 17 % 256 / 16 = m) _ (Nat.mod_lt q (by decide))

/-- Packing the color of a number gives the number modulo the range of a pixel. -/
theorem pack_unpack (f : PixelFormat) (v : Nat) : f.pack (f.unpack v) = v % LittleEndian.range f.bytesPerPixel := by
  cases f <;>
    simp only [pack, unpack, bytesPerPixel, LittleEndian.range, UInt8.toNat_ofNat', Nat.toUInt8, Nat.reducePow,
      Nat.reduceMul, spread_two_bits, spread_four_bits] <;>
    omega

/-- The widest format loses nothing. -/
theorem unpack_pack_rgba8888 (c : Rgba) : rgba8888.unpack (rgba8888.pack c) = c := by
  rcases c with ⟨r, g, b, a⟩
  have hr := r.toNat_lt
  have hg := g.toNat_lt
  have hb := b.toNat_lt
  have ha := a.toNat_lt
  simp only [pack, unpack, Rgba.mk.injEq, ← UInt8.toNat_inj, UInt8.toNat_ofNat', Nat.toUInt8]
  omega

/-- A solid color stays solid. -/
theorem unpack_pack_alpha_full (f : PixelFormat) {c : Rgba} (h : c.a = 255) :
    (f.unpack (f.pack c)).a = 255 := by
  have h' : c.a.toNat = 255 := by rw [h]; rfl
  have hr := c.r.toNat_lt
  have hg := c.g.toNat_lt
  have hb := c.b.toNat_lt
  cases f <;>
    simp only [pack, unpack, ← UInt8.toNat_inj, UInt8.toNat_ofNat', Nat.toUInt8, h', UInt8.reduceToNat] <;> omega

end PixelFormat

end Framecast
