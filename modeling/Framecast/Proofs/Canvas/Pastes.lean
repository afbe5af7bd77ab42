import Framecast.Proofs.Canvas.Conversions
import Framecast.Proofs.Canvas.Export
import Framecast.Proofs.Canvas.Layers
import Framecast.Proofs.Canvas.Operations

/-!
# Bitmaps pixel by pixel

A bitmap whose rows do not run into each other goes to a canvas pixel by pixel: `Bitmap.dots` are the pixels that a fold
visits, each one that is there and each once. An opaque copy stores their colors, painting over stores what the colors
make of those below, and the two agree on full alpha.
-/

namespace Framecast

/-- A pixel of a bitmap with its color. -/
structure Dot where
  column : Nat
  row : Nat
  color : Rgba
  deriving DecidableEq

/-- Where a pixel goes when the top-left corner of its bitmap lies on a point. -/
def Dot.target (corner : Point) (dot : Dot) : Point := corner.offset dot.column dot.row

namespace Bitmap

variable {b : Bitmap} {corner p : Point} {column row : Nat} {dot : Dot}

/-- The pixel lies in the bitmap and its four bytes lie in the buffer. -/
def Has (b : Bitmap) (column row : Nat) : Prop :=
  (column < b.width ∧ row < b.height) ∧ row * b.stride + column * 4 + 4 ≤ b.bytes.size

instance (b : Bitmap) (column row : Nat) : Decidable (b.Has column row) := inferInstanceAs (Decidable (_ ∧ _))

/-- The color in the four bytes of a pixel. -/
def colorOf (b : Bitmap) (column row : Nat) : Rgba := Buffer.colorAt b.bytes (row * b.stride + column * 4)

/-- A pixel of the bitmap goes to the point. -/
def Reaches (b : Bitmap) (corner p : Point) : Prop := ∃ column row, b.Has column row ∧ corner.offset column row = p

theorem pixel?_eq (b : Bitmap) (column row : Nat) :
    b.pixel? column row =
      if row * b.stride + column * 4 + 4 ≤ b.bytes.size then some (b.colorOf column row) else none := rfl

/-! ## The pixels that a fold visits -/

/-- The pixels that a fold visits, in its order. -/
def dots (b : Bitmap) : List Dot := b.fold (fun seen column row color => seen ++ [⟨column, row, color⟩]) []

theorem foldFrom_foldl (f : α → Nat → Nat → Rgba → α) (init : α) (count index : Nat) (seen : List Dot) :
    b.foldFrom f count index (seen.foldl (fun acc dot => f acc dot.column dot.row dot.color) init) =
      (b.foldFrom (fun seen column row color => seen ++ [⟨column, row, color⟩]) count index seen).foldl
        (fun acc dot => f acc dot.column dot.row dot.color) init := by
  -- What is folded so far is the fold over the pixels seen so far.
  induction count generalizing index seen with
  | zero => rfl
  | succ count ih =>
      simp only [foldFrom]
      split
      · rfl
      · rw [← ih, List.foldl_append, List.foldl_cons, List.foldl_nil]

theorem fold_eq_foldl_dots (b : Bitmap) (f : α → Nat → Nat → Rgba → α) (init : α) :
    b.fold f init = b.dots.foldl (fun acc dot => f acc dot.column dot.row dot.color) init :=
  foldFrom_foldl f init (b.width * b.height) 0 []

/-- The `i`-th pixel of the bitmap in row-major order, if it is there. -/
def dotAt? (b : Bitmap) (i : Nat) : Option Dot :=
  (b.pixel? (i % b.width) (i / b.width)).map fun color => ⟨i % b.width, i / b.width, color⟩

theorem dots_eq (hrows : b.width * 4 ≤ b.stride) : b.dots = (List.range (b.width * b.height)).filterMap b.dotAt? := by
  rcases Nat.eq_zero_or_pos b.width with hzero | hwidth
  · rw [dots, fold, hzero, Nat.zero_mul]
    rfl
  · calc b.dots
      _ = ((List.range (b.width * b.height)).filterMap b.dotAt?).foldl (fun seen dot => seen ++ [dot]) [] := by
          rw [dots, fold, foldFrom_eq_foldl_elim hrows hwidth, ← List.range_eq_range', List.foldl_filterMap]
          congr 1
          funext seen i
          rw [dotAt?]
          cases b.pixel? (i % b.width) (i / b.width) <;> rfl
      _ = _ := by
          rw [List.foldl_append_eq_append, List.nil_append]
          exact List.flatMap_singleton' _

theorem mem_dots_iff (hrows : b.width * 4 ≤ b.stride) :
    dot ∈ b.dots ↔ b.Has dot.column dot.row ∧ dot.color = b.colorOf dot.column dot.row := by
  obtain ⟨column, row, color⟩ := dot
  simp only [dots_eq hrows, List.mem_filterMap, List.mem_range, dotAt?, pixel?_eq, Option.map_eq_some_iff,
    Option.ite_none_right_eq_some, Option.some.injEq, Dot.mk.injEq]
  constructor
  · rintro ⟨i, hi, _, ⟨hbytes, rfl⟩, rfl, rfl, rfl⟩
    have hwidth : 0 < b.width := Nat.pos_of_mul_pos_right (Nat.zero_lt_of_lt hi)
    exact ⟨⟨⟨Nat.mod_lt i hwidth, Nat.div_lt_of_lt_mul hi⟩, hbytes⟩, rfl⟩
  · rintro ⟨⟨⟨hcolumn, hrow⟩, hbytes⟩, rfl⟩
    obtain ⟨i, hi, hmod, hdiv⟩ := exists_index hcolumn hrow
    exact ⟨i, hi, b.colorOf column row, by rw [hmod, hdiv]; exact ⟨hbytes, rfl⟩, hmod, hdiv, rfl⟩

/-- No two pixels go to one point. -/
theorem nodup_targets (hrows : b.width * 4 ≤ b.stride) (corner : Point) : (b.dots.map (Dot.target corner)).Nodup := by
  have htarget {i : Nat} {q : Point} (h : (b.dotAt? i).map (Dot.target corner) = some q) :
      q = corner.offset (i % b.width : Nat) (i / b.width : Nat) := by
    simp only [dotAt?, Option.map_map, Option.map_eq_some_iff] at h
    obtain ⟨color, -, rfl⟩ := h
    rfl
  rw [dots_eq hrows, List.map_filterMap]
  refine List.Pairwise.filterMap _ (fun i j hne q hq q' hq' heq => hne ?_) List.nodup_range
  exact offset_inj ((htarget hq).symm.trans (heq.trans (htarget hq')))

theorem mem_targets_iff (hrows : b.width * 4 ≤ b.stride) :
    p ∈ b.dots.map (Dot.target corner) ↔ b.Reaches corner p := by
  simp only [List.mem_map, mem_dots_iff hrows, Reaches]
  constructor
  · rintro ⟨dot, ⟨hhas, -⟩, rfl⟩
    exact ⟨dot.column, dot.row, hhas, rfl⟩
  · rintro ⟨column, row, hhas, rfl⟩
    exact ⟨⟨column, row, b.colorOf column row⟩, ⟨hhas, rfl⟩, rfl⟩

/-! ## The color for a point -/

theorem colorOn?_offset (b : Bitmap) (corner : Point) (column row : Nat) :
    b.colorOn? corner (corner.offset column row) =
      if b.Has column row then some (b.colorOf column row) else none := by
  have hcovers : b.Covers corner (corner.offset column row) ↔ column < b.width ∧ row < b.height := by
    simp only [Covers, Point.seenFrom_offset]
    omega
  simp only [colorOn?, hcovers, Point.seenFrom_offset, Int.toNat_natCast, pixel?_eq]
  by_cases hplace : column < b.width ∧ row < b.height
  · have hhas : b.Has column row ↔ row * b.stride + column * 4 + 4 ≤ b.bytes.size := ⟨And.right, And.intro hplace⟩
    simp only [hplace, and_self, ↓reduceIte, hhas]
  · rw [if_neg hplace, if_neg fun hhas : b.Has column row => hplace hhas.1]

theorem colorOn?_eq_none (h : ¬ b.Reaches corner p) : b.colorOn? corner p = none := by
  by_cases hcovers : b.Covers corner p
  · obtain ⟨i, hi, rfl⟩ := covers_iff_exists_index.mp hcovers
    rw [colorOn?_offset, if_neg fun hhas => h ⟨_, _, hhas, rfl⟩]
  · exact if_neg hcovers

end Bitmap

namespace Canvas

variable {c : Canvas} {b : Bitmap} {corner p : Point} {column row : Nat}

theorem packed?_paste (hc : c.Valid) (hrows : b.width * 4 ≤ b.stride) (corner p : Point) :
    (c.paste b corner).packed? p =
      (c.packed? p).map fun below => (b.colorOn? corner p).elim below c.format.pack := by
  rw [(AddsLayer.paste hc c b corner (.refl c) hrows).packed?_eq]
  cases b.colorOn? corner p <;> rfl

theorem packed?_pasteOver (hc : c.Valid) (hrows : b.width * 4 ≤ b.stride) (corner p : Point) :
    (c.pasteOver b corner).packed? p =
      (c.packed? p).map fun below => (b.colorOn? corner p).elim below (c.format.mix below) := by
  rw [(AddsLayer.pasteOver hc c b corner (.refl c) hrows).packed?_eq]
  cases b.colorOn? corner p <;> rfl

/-- Painting over with full alpha is an opaque copy. -/
theorem packed?_pasteOver_of_alpha_full (hc : c.Valid) (hrows : b.width * 4 ≤ b.stride) (hhas : b.Has column row)
    (halpha : (b.colorOf column row).a = 255) :
    (c.pasteOver b corner).packed? (corner.offset column row) =
      (c.paste b corner).packed? (corner.offset column row) := by
  rw [packed?_pasteOver hc hrows, packed?_paste hc hrows, Bitmap.colorOn?_offset, if_pos hhas]
  refine congrArg (Option.map · _) (funext fun below => ?_)
  rw [Option.elim_some, Option.elim_some, PixelFormat.mix, Rgba.paintedOver_of_alpha_full halpha]

/-- Where every pixel that goes to a point has an alpha of zero, painting over changes nothing. -/
theorem packed?_pasteOver_of_alpha_zero (hc : c.Valid) (hrows : b.width * 4 ≤ b.stride)
    (halpha : ∀ column row, b.Has column row → corner.offset column row = p → (b.colorOf column row).a = 0) :
    (c.pasteOver b corner).packed? p = c.packed? p := by
  rw [packed?_pasteOver hc hrows]
  by_cases hreaches : b.Reaches corner p
  · obtain ⟨column, row, hhas, rfl⟩ := hreaches
    by_cases hp : c.Contains (corner.offset column row)
    · rw [Bitmap.colorOn?_offset, if_pos hhas, packed?_eq hp, Option.map_some, Option.elim_some]
      exact congrArg some (PixelFormat.mix_of_alpha_zero (halpha column row hhas rfl) (LittleEndian.load_lt _ _ _))
    · rw [packed?_eq_none hp, Option.map_none]
  · simp only [Bitmap.colorOn?_eq_none hreaches, Option.elim_none, Option.map_id']

/-- A bitmap whose rows do not run into each other is drawn one pixel at a time, each that is there once and at a point
of its own. An opaque copy stores the color of the pixel and painting over what it makes of the color below, and all
other points are left alone. If no pixel is half transparent, painting over copies those of full alpha. -/
theorem paste_pixel_by_pixel (hc : c.Valid) (hrows : b.width * 4 ≤ b.stride) (corner : Point) :
    let pasted := c.paste b corner
    let mixed := c.pasteOver b corner
    let targets := b.dots.map (Dot.target corner)
    let solid (p : Point) :=
      ∃ column row, b.Has column row ∧ corner.offset column row = p ∧ (b.colorOf column row).a = 255
    (pasted = b.dots.foldl (fun d dot => d.put (dot.target corner) (d.format.pack dot.color)) c ∧
      mixed = b.dots.foldl (fun d dot => d.blend (dot.target corner) dot.color) c) ∧
      (targets.Nodup ∧ ∀ p, p ∈ targets ↔ b.Reaches corner p) ∧
      (c.SameLayout pasted ∧ c.SameLayout mixed) ∧
      (∀ column row, b.Has column row → c.Contains (corner.offset column row) →
        pasted.packed? (corner.offset column row) = some (c.format.pack (b.colorOf column row)) ∧
          ∃ below, c.color? (corner.offset column row) = some below ∧
            mixed.packed? (corner.offset column row) =
              some (c.format.pack ((b.colorOf column row).paintedOver below))) ∧
      (∀ p, ¬ b.Reaches corner p → pasted.packed? p = c.packed? p ∧ mixed.packed? p = c.packed? p) ∧
      ((∀ column row, b.Has column row → (b.colorOf column row).a = 0 ∨ (b.colorOf column row).a = 255) →
        ∀ p, (solid p → mixed.packed? p = pasted.packed? p) ∧ (¬ solid p → mixed.packed? p = c.packed? p)) := by
  intro pasted mixed targets solid
  refine ⟨⟨b.fold_eq_foldl_dots _ c, b.fold_eq_foldl_dots _ c⟩,
    ⟨b.nodup_targets hrows corner, fun p => b.mem_targets_iff hrows⟩,
    ⟨c.sameLayout_paste b corner, c.sameLayout_pasteOver b corner⟩, fun column row hhas hin => ?pixel,
    fun p hout => ?rest, fun halpha p => ⟨?copied, ?kept⟩⟩
  case pixel =>
    constructor
    · rw [packed?_paste hc hrows, b.colorOn?_offset, if_pos hhas, packed?_eq hin, Option.map_some, Option.elim_some]
    · refine ⟨_, color?_eq hin, ?_⟩
      rw [packed?_pasteOver hc hrows, b.colorOn?_offset, if_pos hhas, packed?_eq hin, Option.map_some, Option.elim_some,
        PixelFormat.mix]
  case rest =>
    constructor
    · simp only [pasted, packed?_paste hc hrows, Bitmap.colorOn?_eq_none hout, Option.elim_none, Option.map_id']
    · simp only [mixed, packed?_pasteOver hc hrows, Bitmap.colorOn?_eq_none hout, Option.elim_none, Option.map_id']
  case copied =>
    rintro ⟨column, row, hhas, rfl, hfull⟩
    exact packed?_pasteOver_of_alpha_full hc hrows hhas hfull
  case kept =>
    intro hnone
    exact packed?_pasteOver_of_alpha_zero hc hrows fun column row hhas hp =>
      (halpha column row hhas).resolve_right fun hfull => hnone ⟨column, row, hhas, hp, hfull⟩

/-- Rows of nine bytes, of which the last one breaks off: three pixels go to the canvas, two of them of full alpha. -/
theorem paste_pixel_by_pixel_of_short_row :
    let c : Canvas := blank 3 3 .rgba4444 false
    let b : Bitmap := ⟨2, 2, 9, ⟨#[255, 0, 0, 255, 9, 9, 9, 0, 77, 0, 255, 0, 255]⟩⟩
    let corner : Point := ⟨1, 1⟩
    c.Valid ∧ b.width * 4 ≤ b.stride ∧ b.dots.map (Dot.target corner) = [⟨1, 1⟩, ⟨2, 1⟩, ⟨1, 2⟩] ∧
      (b.dots.map (Dot.target corner)).Nodup ∧
      (c.paste b corner).packed? ⟨2, 1⟩ = some (c.format.pack ⟨9, 9, 9, 0⟩) ∧
      (c.pasteOver b corner).packed? ⟨2, 1⟩ = c.packed? ⟨2, 1⟩ ∧
      (c.pasteOver b corner).packed? ⟨1, 2⟩ = (c.paste b corner).packed? ⟨1, 2⟩ ∧
      (c.paste b corner).packed? ⟨2, 2⟩ = c.packed? ⟨2, 2⟩ := by
  intro c b corner
  have hc : c.Valid := valid_blank (by decide) (by decide) _ _
  have hrows : b.width * 4 ≤ b.stride := by decide
  have hdots : b.dots.map (Dot.target corner) = [⟨1, 1⟩, ⟨2, 1⟩, ⟨1, 2⟩] := by decide
  have halpha : ∀ dot ∈ b.dots, dot.color.a = 0 ∨ dot.color.a = 255 := by decide
  obtain ⟨-, ⟨honce, hreaches⟩, -, hpixel, hrest, hclear⟩ := paste_pixel_by_pixel hc hrows corner
  have hclear := hclear fun column row hhas =>
    halpha ⟨column, row, b.colorOf column row⟩ ((Bitmap.mem_dots_iff hrows).mpr ⟨hhas, rfl⟩)
  have hmissing : ¬ b.Reaches corner ⟨2, 2⟩ := by
    rw [← hreaches, hdots]
    decide
  refine ⟨hc, hrows, hdots, honce, (hpixel 1 0 (by decide) (by decide)).1, (hclear ⟨2, 1⟩).2 ?_,
    (hclear ⟨1, 2⟩).1 ⟨0, 1, by decide, rfl, rfl⟩, (hrest ⟨2, 2⟩ hmissing).1⟩
  rintro ⟨column, row, hhas, htarget, hfull⟩
  simp only [corner, Point.offset, Point.mk.injEq] at htarget
  obtain rfl : column = 1 := by omega
  obtain rfl : row = 0 := by omega
  exact absurd hfull (by decide)

end Canvas

end Framecast
