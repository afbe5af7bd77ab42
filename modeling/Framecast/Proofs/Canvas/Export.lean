import Framecast.Frame.Mailbox
import Framecast.Proofs.Canvas.Pixels

/-!
# Plain pictures of a canvas

A canvas is exported as four bytes a pixel in row-major order, whatever its format, and whatever the buffer held that
the bytes go to. `colorAt_exportInto` and `size_exportInto` describe the export by the colors of the canvas;
`Frame.Shows` says the same of a frame.
-/

namespace Framecast

namespace Buffer

/-- The color in the four bytes from an index on. -/
def colorAt (b : ByteArray) (i : Nat) : Rgba := ⟨byteAt b i, byteAt b (i + 1), byteAt b (i + 2), byteAt b (i + 3)⟩

theorem colorAt_congr {b c : ByteArray} {i j : Nat} (h : ∀ k < 4, byteAt b (i + k) = byteAt c (j + k)) :
    colorAt b i = colorAt c j := by
  simp only [colorAt, Rgba.mk.injEq]
  exact ⟨h 0 (by omega), h 1 (by omega), h 2 (by omega), h 3 (by omega)⟩

/-- Appends the four bytes of a color. -/
def pushColor (b : ByteArray) (c : Rgba) : ByteArray := (((b.push c.r).push c.g).push c.b).push c.a

theorem size_pushColor (b : ByteArray) (c : Rgba) : (pushColor b c).size = b.size + 4 := by
  simp only [pushColor, ByteArray.size_push]

theorem byteAt_pushColor_of_lt {b : ByteArray} {i : Nat} (h : i < b.size) (c : Rgba) :
    byteAt (pushColor b c) i = byteAt b i := by
  simp only [pushColor, byteAt_push, ByteArray.size_push]
  rw [if_neg (by omega), if_neg (by omega), if_neg (by omega), if_neg (by omega)]

theorem colorAt_pushColor (b : ByteArray) (c : Rgba) : colorAt (pushColor b c) b.size = c := by
  have h₂ : b.size ≠ b.size + 1 + 1 := by omega
  have h₃ : b.size ≠ b.size + 1 + 1 + 1 := by omega
  simp [colorAt, pushColor, byteAt_push, ByteArray.size_push, h₂, h₃]

end Buffer

namespace Canvas

open Buffer

/-! ## Pixel by pixel -/

theorem appendColors_succ (c : Canvas) (count index : Nat) (out : ByteArray) :
    c.appendColors (count + 1) index out =
      c.appendColors count (index + 1) (pushColor out (c.format.unpack (c.loadAt (index * c.format.bytesPerPixel)))) :=
  rfl

theorem size_appendColors (c : Canvas) (count index : Nat) (out : ByteArray) :
    (c.appendColors count index out).size = out.size + 4 * count := by
  induction count generalizing index out with
  | zero => rfl
  | succ count ih =>
      rw [appendColors_succ, ih, size_pushColor]
      omega

theorem byteAt_appendColors_of_lt (c : Canvas) (count index : Nat) {out : ByteArray} {i : Nat} (h : i < out.size) :
    byteAt (c.appendColors count index out) i = byteAt out i := by
  induction count generalizing index out with
  | zero => rfl
  | succ count ih =>
      have hpushed := byteAt_pushColor_of_lt h (c.format.unpack (c.loadAt (index * c.format.bytesPerPixel)))
      rw [appendColors_succ, ih _ (by rw [size_pushColor]; omega), hpushed]

theorem colorAt_appendColors (c : Canvas) {count j : Nat} (h : j < count) (index : Nat) (out : ByteArray) :
    colorAt (c.appendColors count index out) (out.size + 4 * j) =
      c.format.unpack (c.loadAt ((index + j) * c.format.bytesPerPixel)) := by
  induction count generalizing index out j with
  | zero => omega
  | succ count ih =>
      rw [appendColors_succ]
      generalize hcolor : c.format.unpack (c.loadAt (index * c.format.bytesPerPixel)) = color
      have hsize := size_pushColor out color
      cases j with
      | zero =>
          -- The color was pushed first; what is appended after it lies behind.
          have hfirst : colorAt (c.appendColors count (index + 1) (pushColor out color)) out.size =
              colorAt (pushColor out color) out.size :=
            colorAt_congr fun k hk => byteAt_appendColors_of_lt c count (index + 1) (by omega)
          simp only [Nat.mul_zero, Nat.add_zero, hfirst, colorAt_pushColor, hcolor]
      | succ j =>
          have hrest := ih (j := j) (by omega) (index + 1) (pushColor out color)
          rw [hsize] at hrest
          rw [show out.size + 4 * (j + 1) = out.size + 4 + 4 * j by omega, hrest]
          congr 3
          omega

/-- In the widest format the color of a pixel is its four bytes. -/
theorem unpack_load_rgba8888 (b : ByteArray) (i : Nat) :
    PixelFormat.rgba8888.unpack (LittleEndian.load b 4 i) = colorAt b i := by
  have h₀ := (byteAt b i).toNat_lt
  have h₁ := (byteAt b (i + 1)).toNat_lt
  have h₂ := (byteAt b (i + 2)).toNat_lt
  have h₃ := (byteAt b (i + 3)).toNat_lt
  simp only [PixelFormat.unpack, LittleEndian.load, colorAt, Rgba.mk.injEq, ← UInt8.toNat_inj, UInt8.toNat_ofNat',
    Nat.toUInt8, Nat.add_assoc, Nat.reduceAdd]
  omega

/-! ## The whole canvas -/

variable {c : Canvas}

theorem exportInto_eq (c : Canvas) (buffer : ByteArray) : c.exportInto buffer = c.exportInto ByteArray.empty := by
  simp only [exportInto, ByteArray.extract_same]

theorem size_exportInto (hc : c.Valid) (buffer : ByteArray) :
    (c.exportInto buffer).size = 4 * (c.width * c.height) := by
  have hcount : c.bytes.size / c.format.bytesPerPixel = c.width * c.height := by
    rw [hc.size_eq]
    exact Nat.mul_div_cancel _ c.format.bytesPerPixel_pos
  have hsize := hc.size_eq
  unfold exportInto
  dsimp only
  split
  · rename_i hformat
    rw [hformat] at hsize
    simp only [ByteArray.size_append, ByteArray.extract_same, ByteArray.size_empty, hsize,
      PixelFormat.bytesPerPixel]
    omega
  · rw [hcount, size_appendColors, ByteArray.extract_same, ByteArray.size_empty, Nat.zero_add]

/-- The four bytes of a pixel in the export are its color. -/
theorem colorAt_exportInto (hc : c.Valid) (buffer : ByteArray) {p : Point} (hp : c.Contains p) :
    c.color? p = some (colorAt (c.exportInto buffer) (4 * c.place p)) := by
  have hcount : c.bytes.size / c.format.bytesPerPixel = c.width * c.height := by
    rw [hc.size_eq]
    exact Nat.mul_div_cancel _ c.format.bytesPerPixel_pos
  rw [color?, packed?_eq hp, Option.map_some, byteIndex_eq_place]
  refine congrArg some ?_
  unfold exportInto
  dsimp only
  split
  · rename_i hformat
    rw [ByteArray.extract_same, ByteArray.empty_append, loadAt, hformat]
    simp only [PixelFormat.bytesPerPixel]
    rw [unpack_load_rgba8888, Nat.mul_comm]
  · have happend := c.colorAt_appendColors (place_lt hp) 0 ByteArray.empty
    rw [hcount, ByteArray.extract_same]
    rw [ByteArray.size_empty, Nat.zero_add, Nat.zero_add] at happend
    exact happend.symm

end Canvas

theorem getElem?_of_isPrefix {α : Type} {l l' : List α} (h : l <+: l') {k : Nat} {a : α} (hk : l[k]? = some a) :
    l'[k]? = some a := by
  obtain ⟨rest, rfl⟩ := h
  obtain ⟨hlt, -⟩ := List.getElem?_eq_some_iff.mp hk
  rw [List.getElem?_append_left hlt, hk]

/-- The frame is a plain picture of the canvas. -/
structure Frame.Shows (f : Frame) (c : Canvas) : Prop where
  width_eq : f.width = c.width
  height_eq : f.height = c.height
  size_eq : f.pixels.size = 4 * (c.width * c.height)
  color_eq : ∀ p, c.Contains p → c.color? p = some (Buffer.colorAt f.pixels (4 * c.place p))

namespace Canvas

/-- The frame that a canvas makes. -/
def frame (c : Canvas) : Frame := ⟨c.width, c.height, c.exportInto ByteArray.empty⟩

theorem frame_shows {c : Canvas} (hc : c.Valid) : c.frame.Shows c :=
  ⟨rfl, rfl, size_exportInto hc _, fun _ hp => colorAt_exportInto hc _ hp⟩

/-- Frames that are the first of those that canvases make, one by one. -/
theorem shown_of_isPrefix {frames : List Frame} {canvases : List Canvas} (h : frames <+: canvases.map frame) {k : Nat}
    {f : Frame} (hk : frames[k]? = some f) :
    ∃ c : Canvas, canvases[k]? = some c ∧ f = c.frame ∧ (c.Valid → f.Shows c) := by
  have hmap := getElem?_of_isPrefix h hk
  rw [List.getElem?_map, Option.map_eq_some_iff] at hmap
  obtain ⟨c, hc, rfl⟩ := hmap
  exact ⟨c, hc, rfl, frame_shows⟩

end Canvas

/-- An open mailbox stages the frame of a canvas, whatever its spare buffer holds. -/
theorem Mailbox.publish_of_open {m : Mailbox} (hopen : m.closed = false) (c : Canvas) :
    m.publish c = (true, { m with
      ready := true, staged := some c.frame, spare := ByteArray.empty, published := m.published + 1 }) := by
  simp only [publish, hopen, Bool.false_eq_true, ↓reduceIte, c.exportInto_eq m.spare, Canvas.frame]

end Framecast
