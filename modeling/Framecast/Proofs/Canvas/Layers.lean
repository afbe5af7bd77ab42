import Framecast.Proofs.Canvas.Bitmaps

/-!
# Layers of color

What is drawn bitmap after bitmap leaves layers of color over every pixel, and the pixel holds what they make of it when
they are mixed in one after another. An opaque copy and a painting over differ only in how a layer is mixed in:
`PixelFormat.cover` forgets what lies below and `PixelFormat.mix` looks through to it. The pixels of one bitmap lie
beside each other, so that a bitmap adds at most one layer to a point, the one of `Bitmap.colorOn?`.
-/

namespace Framecast

namespace PixelFormat

/-- The packed number of a pixel that is overwritten with a color. -/
def cover (f : PixelFormat) (_below : Nat) (color : Rgba) : Nat := f.pack color

/-- Of layers that cover each other only the last is seen. -/
theorem foldl_cover (f : PixelFormat) (layers : List Rgba) (below : Nat) :
    layers.foldl f.cover below = (layers.getLast?.map f.pack).getD below := by
  induction layers generalizing below with
  | nil => rfl
  | cons color rest ih =>
      rw [List.foldl_cons, ih, cover]
      cases h : rest.getLast? <;> simp [List.getLast?_cons, h]

end PixelFormat

/-- If only one number adds elements, a list over all numbers is what that one adds. -/
theorem flatMap_range_eq {α : Type} {f : Nat → List α} {n k : Nat} (hk : k < n) (h : ∀ i < n, i ≠ k → f i = []) :
    (List.range n).flatMap f = f k := by
  induction n with
  | zero => omega
  | succ n ih =>
      rw [List.range_succ, List.flatMap_append, List.flatMap_singleton]
      rcases Nat.lt_or_eq_of_le (Nat.le_of_lt_succ hk) with hlt | rfl
      · rw [ih hlt fun i hi hne => h i (by omega) hne, h n (by omega) (by omega), List.append_nil]
      · have hnone : (List.range k).flatMap f = [] := List.flatMap_eq_nil_iff.mpr fun i hi => by
          have hi := List.mem_range.mp hi
          exact h i (by omega) (by omega)
        rw [hnone, List.nil_append]

namespace Canvas

variable {c d e : Canvas} {mix : Nat → Rgba → Nat} {layers layers' : Point → List Rgba}

/-- One canvas is another with layers of color over its pixels, mixed in from the first to the last. -/
structure Layered (mix : Nat → Rgba → Nat) (c d : Canvas) (layers : Point → List Rgba) : Prop where
  layout : c.SameLayout d
  packed?_eq : ∀ p, d.packed? p = (c.packed? p).map fun below => (layers p).foldl mix below

namespace Layered

theorem refl (mix : Nat → Rgba → Nat) (c : Canvas) : Layered mix c c (fun _ => []) :=
  ⟨.refl c, fun p => by simp only [List.foldl_nil, Option.map_id']⟩

theorem trans (h : Layered mix c d layers) (h' : Layered mix d e layers') :
    Layered mix c e (fun p => layers p ++ layers' p) where
  layout := h.layout.trans h'.layout
  packed?_eq p := by
    rw [h'.packed?_eq, h.packed?_eq, Option.map_map]
    simp only [List.foldl_append, Function.comp_def]

theorem congr (h : Layered mix c d layers) (heq : ∀ p, layers p = layers' p) : Layered mix c d layers' :=
  funext heq ▸ h

/-- A pixel without layers is the same on both canvases. -/
theorem ne_nil_of_packed?_ne {p : Point} (h : Layered mix c d layers) (hp : d.packed? p ≠ c.packed? p) :
    layers p ≠ [] := by
  intro hnone
  apply hp
  rw [h.packed?_eq, hnone]
  simp only [List.foldl_nil, Option.map_id']

/-- Steps that each add layers add all of them, in the order of the steps. -/
theorem foldl {α : Type} {f : Canvas → α → Canvas} {layers : α → Point → List Rgba} {l : List α}
    (h : ∀ d a, a ∈ l → c.SameLayout d → Layered mix d (f d a) (layers a)) :
    Layered mix c (l.foldl f c) (fun p => l.flatMap fun a => layers a p) := by
  induction l generalizing c with
  | nil => exact refl mix c
  | cons a l ih =>
      have hhead := h c a List.mem_cons_self (.refl c)
      have htail := ih (c := f c a) fun d b hb hd => h d b (List.mem_cons_of_mem a hb) (hhead.layout.trans hd)
      exact (hhead.trans htail).congr fun p => by rw [List.flatMap_cons]

end Layered

/-! ## One pixel -/

theorem layered_put (hc : c.Valid) (q : Point) (color : Rgba) :
    Layered c.format.cover c (c.put q (c.format.pack color)) (fun p => if p = q then [color] else []) where
  layout := sameLayout_put c q _
  packed?_eq p := by
    rw [packed?_put hc, Nat.mod_eq_of_lt (c.format.pack_lt color)]
    by_cases hpq : p = q
    · by_cases hp : c.Contains p
      · rw [if_pos ⟨hpq, hp⟩, if_pos hpq, packed?_eq hp]
        rfl
      · rw [if_neg fun h => hp h.2, packed?_eq_none hp, Option.map_none]
    · rw [if_neg fun h => hpq h.1, if_neg hpq]
      simp only [List.foldl_nil, Option.map_id']

theorem layered_blend (hc : c.Valid) (q : Point) (color : Rgba) :
    Layered c.format.mix c (c.blend q color) (fun p => if p = q then [color] else []) where
  layout := sameLayout_blend c q color
  packed?_eq p := by
    rw [packed?_blend hc]
    split
    · rfl
    · simp only [List.foldl_nil, Option.map_id']

end Canvas

/-! ## Bitmaps -/

namespace Bitmap

variable {b : Bitmap} {corner p : Point}

instance (b : Bitmap) (corner p : Point) : Decidable (b.Covers corner p) := inferInstanceAs (Decidable (_ ∧ _))

/-- The color that the bitmap has for a point when its top-left corner lies on another, if its pixel is there. -/
def colorOn? (b : Bitmap) (corner p : Point) : Option Rgba :=
  if b.Covers corner p then b.pixel? (p.seenFrom corner).x.toNat (p.seenFrom corner).y.toNat else none

/-- If no row begins before the one above it ends, all pixels before one that is there are there. -/
theorem pixel?_eq_none_of_le (hrows : b.width * 4 ≤ b.stride) {i j : Nat} (hij : i ≤ j) (hwidth : 0 < b.width)
    (hi : b.pixel? (i % b.width) (i / b.width) = none) : b.pixel? (j % b.width) (j / b.width) = none := by
  simp only [pixel?, ite_eq_right_iff, reduceCtorEq, imp_false] at hi ⊢
  have hindex : i / b.width * b.stride + i % b.width * 4 ≤ j / b.width * b.stride + j % b.width * 4 := by
    rcases Nat.lt_or_eq_of_le (Nat.div_le_div_right (c := b.width) hij) with hlt | heq
    · have hrow : i / b.width * b.stride + b.stride ≤ j / b.width * b.stride := Canvas.mul_add_le_mul hlt
      have hcolumn := Nat.mod_lt i hwidth
      omega
    · have hidivision := Nat.div_add_mod i b.width
      have hjdivision := Nat.div_add_mod j b.width
      rw [heq] at hidivision ⊢
      omega
  omega

/-- A fold goes over all pixels that are there, since none comes after a missing one. -/
theorem foldFrom_eq_foldl_elim {f : α → Nat → Nat → Rgba → α} (hrows : b.width * 4 ≤ b.stride) (hwidth : 0 < b.width)
    (count index : Nat) (acc : α) :
    b.foldFrom f count index acc = (List.range' index count).foldl (fun acc i =>
      (b.pixel? (i % b.width) (i / b.width)).elim acc (f acc (i % b.width) (i / b.width))) acc := by
  induction count generalizing index acc with
  | zero => rfl
  | succ count ih =>
      rw [List.range'_succ, List.foldl_cons, foldFrom]
      cases hpixel : b.pixel? (index % b.width) (index / b.width) with
      | some color => exact ih _ _
      | none =>
          refine .symm (List.foldlRecOn (motive := (· = acc)) _ _ rfl fun _ hacc i hi => ?_)
          have hle : index ≤ i := by
            have := List.mem_range'_1.mp hi
            omega
          rw [pixel?_eq_none_of_le hrows hle hwidth hpixel, hacc]
          rfl

/-- The number of a pixel is decided by the point that it lies on. -/
theorem offset_inj {i j : Nat}
    (h : corner.offset (i % b.width : Nat) (i / b.width : Nat) =
      corner.offset (j % b.width : Nat) (j / b.width : Nat)) : i = j := by
  simp only [Point.offset, Point.mk.injEq] at h
  have hi := Nat.div_add_mod i b.width
  have hj := Nat.div_add_mod j b.width
  rw [show i / b.width = j / b.width by omega, show i % b.width = j % b.width by omega] at hi
  omega

/-- The pixels of a bitmap together add the layer of the one that lies on the point. -/
theorem flatMap_pixels (b : Bitmap) (corner p : Point) :
    ((List.range (b.width * b.height)).flatMap fun i =>
      (b.pixel? (i % b.width) (i / b.width)).elim [] fun color =>
        if p = corner.offset (i % b.width : Nat) (i / b.width : Nat) then [color] else []) =
      (b.colorOn? corner p).toList := by
  have hbeside (i : Nat) (hne : p ≠ corner.offset (i % b.width : Nat) (i / b.width : Nat)) :
      ((b.pixel? (i % b.width) (i / b.width)).elim [] fun color =>
        if p = corner.offset (i % b.width : Nat) (i / b.width : Nat) then [color] else []) = [] := by
    cases b.pixel? (i % b.width) (i / b.width) with
    | none => rfl
    | some color => exact if_neg hne
  rw [colorOn?]
  split
  · rename_i hcovers
    obtain ⟨k, hk, rfl⟩ := covers_iff_exists_index.mp hcovers
    rw [flatMap_range_eq hk fun i _ hne => hbeside i fun heq => hne (offset_inj heq).symm]
    simp only [Point.seenFrom_offset, Int.toNat_natCast, ↓reduceIte]
    cases b.pixel? (k % b.width) (k / b.width) <;> rfl
  · rename_i hout
    refine List.flatMap_eq_nil_iff.mpr fun i hi => hbeside i fun heq => hout ?_
    exact covers_iff_exists_index.mpr ⟨i, List.mem_range.mp hi, heq⟩

end Bitmap

namespace Canvas

variable {c d : Canvas} {mix : Nat → Rgba → Nat} {draw : Canvas → Bitmap → Point → Canvas}

/-- Bitmaps that are drawn on a canvas of a layout add a layer wherever they have a pixel. -/
def AddsLayer (mix : Nat → Rgba → Nat) (c : Canvas) (draw : Canvas → Bitmap → Point → Canvas) : Prop :=
  ∀ (d : Canvas) (b : Bitmap) (corner : Point), c.SameLayout d → b.width * 4 ≤ b.stride →
    Layered mix d (draw d b corner) fun p => (b.colorOn? corner p).toList

namespace AddsLayer

theorem of_sameLayout (h : AddsLayer mix c draw) (hd : c.SameLayout d) : AddsLayer mix d draw :=
  fun e b corner he => h e b corner (hd.trans he)

theorem fold {f : Canvas → Point → Rgba → Canvas}
    (hf : ∀ d q color, c.SameLayout d → Layered mix d (f d q color) fun p => if p = q then [color] else []) :
    AddsLayer mix c fun d b corner => b.fold (fun d column row color => f d (corner.offset column row) color) d := by
  intro d b corner hd hrows
  simp only [Bitmap.fold]
  rcases Nat.eq_zero_or_pos b.width with hzero | hwidth
  · have hnone (p : Point) : b.colorOn? corner p = none := if_neg fun hcovers => by
      have hcolumn := hcovers.1
      omega
    rw [hzero, Nat.zero_mul]
    exact (Layered.refl mix d).congr fun p => by rw [hnone]; rfl
  · rw [Bitmap.foldFrom_eq_foldl_elim hrows hwidth, ← List.range_eq_range']
    refine (Layered.foldl fun e i _ he => ?_).congr fun p => b.flatMap_pixels corner p
    cases b.pixel? (i % b.width) (i / b.width) with
    | none => exact .refl mix e
    | some color => exact hf e _ color (hd.trans he)

theorem paste (hc : c.Valid) : AddsLayer c.format.cover c Canvas.paste :=
  fold (f := fun d q color => d.put q (d.format.pack color)) fun _ q color hd =>
    hd.format_eq ▸ layered_put (hd.valid hc) q color

theorem pasteOver (hc : c.Valid) : AddsLayer c.format.mix c Canvas.pasteOver :=
  fold (f := blend) fun _ q color hd => hd.format_eq ▸ layered_blend (hd.valid hc) q color

end AddsLayer

end Canvas

end Framecast
