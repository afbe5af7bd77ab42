import Framecast.Proofs.Canvas.Bitmaps
import Framecast.Proofs.Canvas.Conversions
import Framecast.Proofs.Canvas.Export

/-!
# Canvases from their plain pictures

A plain picture has all that a canvas shows. Copied to the corner of a canvas of the same size and format it brings back
every byte, for packing undoes unpacking in every format and every byte belongs to a pixel.
-/

namespace Framecast.Canvas

variable {c d : Canvas} {p : Point}

/-- The plain picture of a canvas as a bitmap, in place of what a buffer held. -/
def picture (c : Canvas) (buffer : ByteArray) : Bitmap := ⟨c.width, c.height, 4 * c.width, c.exportInto buffer⟩

theorem shows_picture (hc : c.Valid) (buffer : ByteArray) :
    (c.picture buffer).Shows fun column row => c.format.unpack (c.loadAt (c.byteIndex ⟨column, row⟩)) := by
  intro column row hcolumn hrow
  have hp : c.Contains ⟨column, row⟩ :=
    ⟨Int.natCast_nonneg _, Int.ofNat_lt.mpr hcolumn, Int.natCast_nonneg _, Int.ofNat_lt.mpr hrow⟩
  have hindex : row * (c.picture buffer).stride + column * 4 = 4 * c.place ⟨column, row⟩ := by
    simp only [picture, place, Int.toNat_natCast, Nat.mul_left_comm row]
    omega
  have hsize : 4 * c.place ⟨column, row⟩ + 4 ≤ (c.picture buffer).bytes.size := by
    have hplace := place_lt hp
    rw [picture, size_exportInto hc]
    omega
  have hcolor := colorAt_exportInto hc buffer hp
  rw [color?_eq hp] at hcolor
  rw [Bitmap.pixel?, hindex, if_pos hsize]
  exact hcolor.symm

theorem bitmapPicture_eq (hp : c.Contains p) :
    bitmapPicture c.format (fun column row => c.format.unpack (c.loadAt (c.byteIndex ⟨column, row⟩))) ⟨0, 0⟩ p =
      c.loadAt (c.byteIndex p) := by
  obtain ⟨hx, -, hy, -⟩ := hp
  have hpoint : (⟨((p.seenFrom ⟨0, 0⟩).x.toNat : Nat), ((p.seenFrom ⟨0, 0⟩).y.toNat : Nat)⟩ : Point) = p := by
    simp only [Point.seenFrom, Int.sub_zero, Int.toNat_of_nonneg hx, Int.toNat_of_nonneg hy]
  rw [bitmapPicture, hpoint, PixelFormat.pack_unpack, loadAt, Nat.mod_eq_of_lt (LittleEndian.load_lt _ _ _)]

/-- Copied to a canvas of the same size and format, the picture brings back all but the edge mode. -/
theorem paste_picture (hc : c.Valid) (hd : d.Valid) (hwidth : d.width = c.width) (hheight : d.height = c.height)
    (hformat : d.format = c.format) (buffer : ByteArray) :
    d.paste (c.picture buffer) ⟨0, 0⟩ = { c with antialias := d.antialias } := by
  have hsame : ({ c with antialias := d.antialias } : Canvas).SameLayout d :=
    ⟨hwidth, hheight, hformat, rfl, by rw [hd.size_eq, hc.size_eq, hwidth, hheight, hformat]⟩
  have hpainted := painted_paste hd (shows_picture hc buffer) ⟨0, 0⟩
  have hvalid : ({ c with antialias := d.antialias } : Canvas).Valid := ⟨hc.width_pos, hc.height_pos, hc.size_eq⟩
  refine (hsame.trans hpainted.layout).eq_of_packed? hvalid fun p (hp : c.Contains p) => ?_
  have hcovers : (c.picture buffer).Covers ⟨0, 0⟩ p := by
    obtain ⟨hx, hx', hy, hy'⟩ := hp
    simp only [Bitmap.Covers, Point.seenFrom, Int.sub_zero]
    exact ⟨⟨hx, hx'⟩, hy, hy'⟩
  calc (d.paste (c.picture buffer) ⟨0, 0⟩).packed? p
    _ = some (c.loadAt (c.byteIndex p)) := by
        rw [hpainted.inside p (hsame.contains_iff.mpr hp) hcovers, hformat, bitmapPicture_eq hp]
    _ = c.packed? p := (packed?_eq hp).symm

/-- A plain picture has four bytes for every pixel, in row-major order the bytes of its color, whatever the buffer held
that they went to. As a bitmap it brings back the canvas, byte by byte, on every canvas of the same size and format. -/
theorem exportInto_restores (hc : c.Valid) (buffer : ByteArray) :
    let out := c.exportInto buffer
    (out.size = 4 * c.width * c.height ∧
      ∀ i < c.width * c.height,
        c.color? ⟨(i % c.width : Nat), (i / c.width : Nat)⟩ = some (Buffer.colorAt out (4 * i))) ∧
      ∀ d : Canvas, d.Valid → d.width = c.width → d.height = c.height → d.format = c.format →
        let restored := d.paste ⟨c.width, c.height, 4 * c.width, out⟩ ⟨0, 0⟩
        restored.bytes = c.bytes ∧ d.SameLayout restored := by
  intro out
  refine ⟨⟨?_, fun i hi => ?_⟩, fun d hd hwidth hheight hformat => ?_⟩
  · rw [size_exportInto hc, Nat.mul_assoc]
  · rw [colorAt_exportInto hc buffer (contains_of_place hi), c.place_divMod]
  · have hbytes := congrArg bytes (paste_picture hc hd hwidth hheight hformat buffer)
    exact ⟨hbytes, d.sameLayout_paste _ _⟩

/-- Two pixels of sixteen bits go through a picture of eight bytes, in a buffer of nine, to a canvas of another color. -/
theorem exportInto_restores_of_two_pixels :
    let c : Canvas := ⟨2, 1, .rgba4444, true, ⟨#[0x0F, 0xF0, 0x34, 0x12]⟩⟩
    let d : Canvas := ⟨2, 1, .rgba4444, false, ⟨#[7, 7, 7, 7]⟩⟩
    let out := c.exportInto ⟨#[1, 2, 3, 4, 5, 6, 7, 8, 9]⟩
    c.Valid ∧ d.Valid ∧ out.size = 8 ∧ c.color? ⟨1, 0⟩ = some (Buffer.colorAt out 4) ∧
      (d.paste ⟨2, 1, 8, out⟩ ⟨0, 0⟩).bytes = ⟨#[0x0F, 0xF0, 0x34, 0x12]⟩ := by
  intro c d out
  have hc : c.Valid := ⟨by decide, by decide, rfl⟩
  have hd : d.Valid := ⟨by decide, by decide, rfl⟩
  have hlast : (⟨(1 % c.width : Nat), (1 / c.width : Nat)⟩ : Point) = ⟨1, 0⟩ := by decide
  obtain ⟨⟨hsize, hcolors⟩, hrestores⟩ := exportInto_restores hc ⟨#[1, 2, 3, 4, 5, 6, 7, 8, 9]⟩
  exact ⟨hc, hd, hsize, hlast ▸ hcolors 1 (by decide), (hrestores d hd rfl rfl rfl).1⟩

end Framecast.Canvas
