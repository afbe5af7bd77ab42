import Framecast.Proofs.Canvas.Copies

/-!
# What a write leaves on a canvas

A write changes the pixel that it names and no other: `packed?_put` says it of a packed number and `packed?_blend` of a
color that is painted over. `Canvas.Painted` says the same of whole shapes, which overwrite a set of pixels, each with
its own packed number or all with one. What is drawn piece by piece paints the union of the pieces.
-/

namespace Framecast

namespace PixelFormat

/-- The packed number of a pixel that a color is painted over. -/
def mix (f : PixelFormat) (below : Nat) (color : Rgba) : Nat := f.pack (color.paintedOver (f.unpack below))

theorem mix_of_alpha_zero {f : PixelFormat} {below : Nat} {color : Rgba} (h : color.a = 0)
    (hbelow : below < LittleEndian.range f.bytesPerPixel) : f.mix below color = below := by
  rw [mix, Rgba.paintedOver_of_alpha_zero h, pack_unpack, Nat.mod_eq_of_lt hbelow]

end PixelFormat

namespace Canvas

variable {c d e : Canvas} {p q : Point}

theorem SameLayout.packed?_of_not_contains (h : c.SameLayout d) (hp : ¬ c.Contains p) : d.packed? p = c.packed? p := by
  have hp' : ¬ d.Contains p := fun hd => hp (h.contains_iff.mp hd)
  rw [packed?_eq_none hp, packed?_eq_none hp']

/-! ## One pixel -/

theorem place_lt_or_gt (hp : c.Contains p) (hq : c.Contains q) (hne : p ≠ q) :
    c.place p < c.place q ∨ c.place q < c.place p := by
  obtain ⟨hx, hx', hy, -⟩ := hq
  have hrow := @place_mem_row_iff c p hp q.y q.x 1 hy hx (by omega)
  have hapart : ¬ (p.y = q.y ∧ q.x ≤ p.x ∧ p.x < q.x + (1 : Nat)) := by
    rintro ⟨hpy, hpx, hpx'⟩
    obtain ⟨px, py⟩ := p
    obtain ⟨qx, qy⟩ := q
    simp only [ne_eq, Point.mk.injEq, not_and] at hne hpy hpx hpx'
    omega
  have hplace : c.place ⟨q.x, q.y⟩ = c.place q := rfl
  omega

theorem byteIndex_add_bytesPerPixel_le (hc : c.Valid) (hp : c.Contains p) :
    c.byteIndex p + c.format.bytesPerPixel ≤ c.bytes.size := by
  obtain ⟨hx, hx', hy, hy'⟩ := hp
  have hend := @byteIndex_add_le c hc p 1 (by omega) (by omega)
  rwa [Nat.one_mul] at hend

theorem packed?_storeAt (hc : c.Valid) (hq : c.Contains q) (hp : c.Contains p) (value : Nat) :
    (c.storeAt (c.byteIndex q) value).packed? p =
      if p = q then some (value % LittleEndian.range c.format.bytesPerPixel) else c.packed? p := by
  have hstored : (c.storeAt (c.byteIndex q) value).Contains p := hp
  split
  · rename_i heq
    subst heq
    rw [packed?_eq hstored]
    exact congrArg some (LittleEndian.load_store _ _ _ _ (byteIndex_add_bytesPerPixel_le hc hp))
  · rename_i hne
    refine packed?_congr rfl hstored hp fun k hk => ?_
    have hindex : (c.storeAt (c.byteIndex q) value).byteIndex p = c.byteIndex p := rfl
    have hk' : k < c.format.bytesPerPixel := hk
    rw [hindex, byteIndex_eq_place, byteIndex_eq_place]
    -- The bytes of the two pixels lie apart.
    rcases place_lt_or_gt hp hq hne with hlt | hgt
    · exact LittleEndian.byteAt_store_of_apart _ _ _ _ _ (.inl ((block_lt_iff hk').mpr hlt))
    · have hmul : c.place q * c.format.bytesPerPixel + c.format.bytesPerPixel ≤
          c.place p * c.format.bytesPerPixel := mul_add_le_mul hgt
      exact LittleEndian.byteAt_store_of_apart _ _ _ _ _ (.inr (by omega))

theorem packed?_put (hc : c.Valid) (p q : Point) (value : Nat) :
    (c.put q value).packed? p =
      if p = q ∧ c.Contains p then some (value % LittleEndian.range c.format.bytesPerPixel) else c.packed? p := by
  by_cases hp : c.Contains p
  · by_cases hq : c.Contains q
    · simp only [put, byteIndex?, if_pos hq, packed?_storeAt hc hq hp, hp, and_true]
    · have hne : p ≠ q := fun heq => hq (heq ▸ hp)
      simp only [put, byteIndex?, if_neg hq, hne, false_and, ↓reduceIte]
  · rw [(sameLayout_put c q value).packed?_of_not_contains hp, if_neg fun h => hp h.2]

/-- A color that is painted over a pixel is mixed into its packed number, and into no other. -/
theorem packed?_blend (hc : c.Valid) (p q : Point) (color : Rgba) :
    (c.blend q color).packed? p =
      if p = q then (c.packed? p).map fun below => c.format.mix below color else c.packed? p := by
  by_cases hp : c.Contains p
  · by_cases hq : c.Contains q
    · by_cases halpha : color.a = 0
      · have hbelow : c.format.mix (c.loadAt (c.byteIndex p)) color = c.loadAt (c.byteIndex p) :=
          PixelFormat.mix_of_alpha_zero halpha (LittleEndian.load_lt _ _ _)
        simp only [blend, if_pos halpha, packed?_eq hp, Option.map_some, hbelow, ite_self]
      · have hmod := Nat.mod_eq_of_lt
          (c.format.pack_lt (color.paintedOver (c.format.unpack (c.loadAt (c.byteIndex q)))))
        simp only [blend, if_neg halpha, byteIndex?, if_pos hq, packed?_storeAt hc hq hp, hmod]
        split
        · rename_i heq
          rw [packed?_eq hp, heq]
          rfl
        · rfl
    · have hne : p ≠ q := fun heq => hq (heq ▸ hp)
      simp only [blend, byteIndex?, if_neg hq, ite_self, if_neg hne]
  · rw [(sameLayout_blend c q color).packed?_of_not_contains hp, packed?_eq_none hp, Option.map_none, ite_self]

/-- A color that is painted over a pixel is painted over what it shows. A color of alpha zero changes nothing. -/
theorem color?_blend (hc : c.Valid) (p q : Point) (color : Rgba) :
    (c.blend q color).color? p =
      if p = q ∧ color.a ≠ 0 then
        (c.color? p).map fun below => c.format.unpack (c.format.pack (color.paintedOver below))
      else c.color? p := by
  by_cases halpha : color.a = 0
  · simp only [blend, halpha, ne_eq, not_true_eq_false, and_false, ↓reduceIte]
  · rw [color?, packed?_blend hc, (sameLayout_blend c q color).format_eq]
    split
    · rename_i heq
      rw [if_pos ⟨heq, halpha⟩, color?, Option.map_map, Option.map_map]
      rfl
    · rename_i hne
      rw [if_neg fun h => hne h.1, color?]

/-! ## Shapes -/

/-- One canvas is another with a set of pixels overwritten, each by the packed number that a picture has for it. -/
structure Painted (c d : Canvas) (picture : Point → Nat) (S : Point → Prop) : Prop where
  layout : c.SameLayout d
  inside : ∀ p, c.Contains p → S p → d.packed? p = some (picture p)
  outside : ∀ p, ¬ S p → d.packed? p = c.packed? p

namespace Painted

variable {picture : Point → Nat} {S T : Point → Prop}

theorem refl (c : Canvas) (picture : Point → Nat) : c.Painted c picture (fun _ => False) :=
  ⟨.refl c, fun _ _ hS => hS.elim, fun _ _ => rfl⟩

theorem trans (h : c.Painted d picture S) (h' : d.Painted e picture T) : c.Painted e picture (fun p => S p ∨ T p) where
  layout := h.layout.trans h'.layout
  inside p hp hS := by
    by_cases hT : T p
    · exact h'.inside p (h.layout.contains_iff.mpr hp) hT
    · rw [h'.outside p hT]
      exact h.inside p hp (hS.resolve_right hT)
  outside p hp := by
    rw [h'.outside p fun hT => hp (.inr hT), h.outside p fun hS => hp (.inl hS)]

/-- Only the pixels of the set count. -/
theorem recolor {picture' : Point → Nat} (h : c.Painted d picture S) (heq : ∀ p, S p → picture p = picture' p) :
    c.Painted d picture' S where
  layout := h.layout
  inside p hp hS := heq p hS ▸ h.inside p hp hS
  outside := h.outside

/-- Only the pixels of the canvas count. -/
theorem congr (h : c.Painted d picture S) (hST : ∀ p, c.Contains p → (S p ↔ T p)) : c.Painted d picture T where
  layout := h.layout
  inside p hp hT := h.inside p hp ((hST p hp).mpr hT)
  outside p hT := by
    by_cases hp : c.Contains p
    · exact h.outside p fun hS => hT ((hST p hp).mp hS)
    · exact h.layout.packed?_of_not_contains hp

/-- Steps that each paint a set paint the union of the sets. -/
theorem foldl {α : Type} {f : Canvas → α → Canvas} {S : α → Point → Prop} {l : List α}
    (h : ∀ d a, a ∈ l → c.SameLayout d → d.Painted (f d a) picture (S a)) :
    c.Painted (l.foldl f c) picture (fun p => ∃ a ∈ l, S a p) := by
  induction l generalizing c with
  | nil => exact (refl c picture).congr fun p _ => by simp
  | cons a l ih =>
      have hhead := h c a List.mem_cons_self (.refl c)
      have htail := ih (c := f c a) fun d b hb hd => h d b (List.mem_cons_of_mem a hb) (hhead.layout.trans hd)
      exact (hhead.trans htail).congr fun p _ => by simp

theorem spanFold {f : Canvas → Int → Canvas} {S : Int → Point → Prop} {s : Span}
    (h : ∀ d n, n ∈ s → c.SameLayout d → d.Painted (f d n) picture (S n)) :
    c.Painted (s.fold f c) picture (fun p => ∃ n ∈ s, S n p) := by
  rw [Span.fold_eq_foldl]
  exact (foldl fun d n hn => h d n (Span.mem_toList.mp hn)).congr fun p _ => by simp only [Span.mem_toList]

end Painted

variable {value : Nat}

/-- What a pixel holds of a number that is stored in it. -/
def stored (c : Canvas) (value : Nat) : Nat := value % LittleEndian.range c.format.bytesPerPixel

theorem stored_of_lt (hvalue : value < LittleEndian.range c.format.bytesPerPixel) : c.stored value = value :=
  Nat.mod_eq_of_lt hvalue

theorem SameLayout.stored_eq (h : c.SameLayout d) (value : Nat) : d.stored value = c.stored value := by
  rw [stored, stored, h.format_eq]

theorem painted_put_stored (hc : c.Valid) (q : Point) (value : Nat) :
    c.Painted (c.put q value) (fun _ => c.stored value) (· = q) where
  layout := sameLayout_put c q value
  inside p hp hS := by rw [packed?_put hc, if_pos ⟨hS, hp⟩, stored]
  outside p hS := by rw [packed?_put hc, if_neg fun h => hS h.1]

theorem painted_put (hc : c.Valid) (hvalue : value < LittleEndian.range c.format.bytesPerPixel) (q : Point) :
    c.Painted (c.put q value) (fun _ => value) (· = q) :=
  (painted_put_stored hc q value).recolor fun _ _ => stored_of_lt hvalue

/-- A row is painted from its one end to the other, whichever comes first, as far as columns are coordinates. -/
theorem painted_putRow_stored (hc : c.Valid) (a b y : Int) (value : Nat) :
    c.Painted (c.putRow a b y value) (fun _ => c.stored value)
      (fun p => p.y = y ∧ p.x ∈ Span.between a b ∧ p.x ≤ c.lastColumn) := by
  unfold putRow
  split
  · refine (Painted.refl c _).congr fun p hp => ?_
    obtain ⟨-, -, hy, hy'⟩ := hp
    simp only [false_iff]
    omega
  · rename_i hy
    have hlast := hc.lastColumn_lt
    have hpixel (d : Canvas) (x : Int) (hx : x ∈ (Span.between a b).clip 0 c.lastColumn) (hd : c.SameLayout d) :
        d.Painted (d.storeAt (d.byteIndex ⟨x, y⟩) value) (fun _ => c.stored value) (· = ⟨x, y⟩) := by
      have hin : d.Contains ⟨x, y⟩ := by
        rw [hd.contains_iff]
        simp only [Span.mem_clip] at hx
        simp only [Contains]
        omega
      have hput : d.put ⟨x, y⟩ value = d.storeAt (d.byteIndex ⟨x, y⟩) value := by
        simp only [put, byteIndex?, if_pos hin]
      rw [← hput, ← hd.stored_eq]
      exact painted_put_stored (hd.valid hc) ⟨x, y⟩ value
    refine (Painted.spanFold hpixel).congr fun p hp => ?_
    simp only [Span.mem_clip]
    constructor
    · rintro ⟨x, ⟨hmem, -, hx⟩, rfl⟩
      exact ⟨rfl, hmem, hx⟩
    · rintro ⟨rfl, hmem, hx⟩
      exact ⟨p.x, ⟨hmem, hp.1, hx⟩, rfl⟩

theorem painted_putRow_clipped (hc : c.Valid) (hvalue : value < LittleEndian.range c.format.bytesPerPixel)
    (a b y : Int) :
    c.Painted (c.putRow a b y value) (fun _ => value)
      (fun p => p.y = y ∧ p.x ∈ Span.between a b ∧ p.x ≤ c.lastColumn) :=
  (painted_putRow_stored hc a b y value).recolor fun _ _ => stored_of_lt hvalue

/-- All columns are coordinates. -/
def Narrow (c : Canvas) : Prop := (c.width : Int) - 1 ≤ Coordinate.greatest

instance (c : Canvas) : Decidable c.Narrow := inferInstanceAs (Decidable (_ ≤ _))

theorem FitsCoordinates.narrow (h : c.FitsCoordinates) : c.Narrow := Int.le_trans (Int.sub_le_self _ (by decide)) h.1

theorem SameLayout.narrow (h : c.SameLayout d) (hc : c.Narrow) : d.Narrow := by rwa [Narrow, h.width_eq]

theorem painted_putRow (hc : c.Valid) (hnarrow : c.Narrow)
    (hvalue : value < LittleEndian.range c.format.bytesPerPixel) (a b y : Int) :
    c.Painted (c.putRow a b y value) (fun _ => value) (fun p => p.y = y ∧ p.x ∈ Span.between a b) :=
  (painted_putRow_clipped hc hvalue a b y).congr fun p hp => by
    obtain ⟨-, hx, -, -⟩ := hp
    rw [lastColumn_eq hnarrow]
    constructor
    · exact fun h => ⟨h.1, h.2.1⟩
    · exact fun h => ⟨h.1, h.2, by omega⟩

end Canvas

end Framecast
