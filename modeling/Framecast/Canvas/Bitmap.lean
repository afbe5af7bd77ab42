import Framecast.Canvas.Basic

/-!
# Bitmaps

A bitmap is a block of colors in memory, four bytes a pixel in the order red, green, blue, alpha, whose rows may be
padded or cut short. Glyphs and images reach a canvas as bitmaps, either by an opaque copy or by painting over. Both
walk the pixels in row-major order and end at the first pixel that is not wholly there.
-/

namespace Framecast

/-- Rows of `width` pixels that start every `stride` bytes. -/
structure Bitmap where
  width : Nat
  height : Nat
  stride : Nat
  bytes : ByteArray

namespace Bitmap

/-- The pixel in a column and a row, if its four bytes are there. -/
def pixel? (b : Bitmap) (column row : Nat) : Option Rgba :=
  let index := row * b.stride + column * 4
  if index + 4 ≤ b.bytes.size then
    some ⟨Buffer.byteAt b.bytes index, Buffer.byteAt b.bytes (index + 1), Buffer.byteAt b.bytes (index + 2),
      Buffer.byteAt b.bytes (index + 3)⟩
  else none

/-- Folds over `count` pixels from the `index`-th on, in row-major order, up to the first missing one. -/
def foldFrom (b : Bitmap) (f : α → Nat → Nat → Rgba → α) : (count index : Nat) → α → α
  | 0, _, acc => acc
  | count + 1, index, acc =>
    match b.pixel? (index % b.width) (index / b.width) with
    | none => acc
    | some color => foldFrom b f count (index + 1) (f acc (index % b.width) (index / b.width) color)

/-- Folds over the columns, rows and colors in row-major order, up to the first missing pixel. -/
def fold (b : Bitmap) (f : α → Nat → Nat → Rgba → α) (init : α) : α := b.foldFrom f (b.width * b.height) 0 init

theorem foldFrom_preserves (b : Bitmap) {p : α → Prop} {f : α → Nat → Nat → Rgba → α}
    (h : ∀ a column row color, p a → p (f a column row color)) (count index : Nat) {acc : α} (hacc : p acc) :
    p (b.foldFrom f count index acc) := by
  induction count generalizing index acc with
  | zero => exact hacc
  | succ count ih =>
      simp only [foldFrom]
      split
      · exact hacc
      · exact ih _ (h _ _ _ _ hacc)

/-- What holds at the start and is kept by every pixel holds at the end of a fold. -/
theorem fold_preserves (b : Bitmap) {p : α → Prop} {f : α → Nat → Nat → Rgba → α}
    (h : ∀ a column row color, p a → p (f a column row color)) {init : α} (hinit : p init) : p (b.fold f init) :=
  b.foldFrom_preserves h _ _ hinit

end Bitmap

namespace Canvas

/-- Copies a bitmap with its top-left corner at a point. -/
def paste (c : Canvas) (b : Bitmap) (corner : Point) : Canvas :=
  b.fold (fun c column row color => c.put (corner.offset column row) (c.format.pack color)) c

/-- Paints a bitmap over the canvas with its top-left corner at a point. -/
def pasteOver (c : Canvas) (b : Bitmap) (corner : Point) : Canvas :=
  b.fold (fun c column row color => c.blend (corner.offset column row) color) c

end Canvas

end Framecast
